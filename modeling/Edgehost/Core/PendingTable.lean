import Edgehost.Common.Slots
import Edgehost.Common.CString

/-!
# The pending table (`pending_table.c`)

One entry for each inbound request whose upstream request is in flight, in a slot array of fixed
length. An entry is found by its inbound slot or by its outbound id, and insertion refuses a second
entry for either.

* `EdgePendingTable.WellFormed` is the invariant: both keys are distinct, every entry names a plugin
  and a non-zero id, and `count` is the number of entries.
* `EdgePendingTable.inbound` and `EdgePendingTable.outbound` read the table as partial functions, and
  the `insert` and `release` lemmas say how these change.
-/

namespace Edgehost

def EDGE_PENDING_DEFAULT_CAP : ℕ := 256
def EDGE_PENDING_SUB_MAX : ℕ := 64

/-- `edge_pending_entry_t`; plugin pointers have type `P`, and NULL is `none`. -/
structure EdgePendingEntry (P : Type*) where
  used : Bool
  inboundSlot : UInt32
  outboundId : UInt64
  plugin : Option P
  userTag : UInt64
  startedMs : UInt64
  timeoutMs : UInt32
  principalSub : Bytes
  deriving DecidableEq

/-- `struct edge_pending_table`; the capacity is the length of `slots`. -/
structure EdgePendingTable (P : Type*) where
  slots : List (EdgePendingEntry P)
  count : ℕ
  deriving DecidableEq

variable {P : Type*}

/-- An entry of all zero bytes. -/
def EdgePendingEntry.zero : EdgePendingEntry P where
  used := false
  inboundSlot := 0
  outboundId := 0
  plugin := none
  userTag := 0
  startedMs := 0
  timeoutMs := 0
  principalSub := []

/-- The entries as found by inbound slot. -/
def inboundView : SlotView (EdgePendingEntry P) UInt32 where
  live e := e.used
  key e := e.inboundSlot

/-- The entries as found by outbound id. -/
def outboundView : SlotView (EdgePendingEntry P) UInt64 where
  live e := e.used
  key e := e.outboundId

/-- `edge_pending_create`, when its allocations succeed. -/
def edgePendingCreate (capacity : ℕ) : EdgePendingTable P where
  slots := List.replicate (if capacity = 0 then EDGE_PENDING_DEFAULT_CAP else capacity) .zero
  count := 0

/-- `edge_pending_full`. -/
def edgePendingFull (t : EdgePendingTable P) : Bool := t.count ≥ t.slots.length

/-- `edge_pending_find_outbound`, as the index of the entry and its record. -/
def edgePendingFindOutbound (t : EdgePendingTable P) (outboundId : UInt64) :
    Option (ℕ × EdgePendingEntry P) :=
  if outboundId = 0 then none else outboundView.locate t.slots outboundId

/-- `edge_pending_find_inbound`. -/
def edgePendingFindInbound (t : EdgePendingTable P) (inboundSlot : UInt32) :
    Option (ℕ × EdgePendingEntry P) :=
  inboundView.locate t.slots inboundSlot

/-- The entry that an insertion writes. -/
def newPendingEntry (inboundSlot : UInt32) (outboundId : UInt64) (plugin : Option P)
    (userTag : UInt64) (timeoutMs : UInt32) (startedMs : UInt64) (principalSub : Option Bytes) :
    EdgePendingEntry P where
  used := true
  inboundSlot := inboundSlot
  outboundId := outboundId
  plugin := plugin
  userTag := userTag
  startedMs := startedMs
  timeoutMs := timeoutMs
  principalSub := snprintf EDGE_PENDING_SUB_MAX (principalSub.getD [])

/-- `edge_pending_insert`. -/
def edgePendingInsert (t : EdgePendingTable P) (inboundSlot : UInt32) (outboundId : UInt64)
    (plugin : Option P) (userTag : UInt64) (timeoutMs : UInt32) (startedMs : UInt64)
    (principalSub : Option Bytes) : EdgePendingTable P × ℤ :=
  if plugin.isNone ∨ outboundId = 0 then (t, -1)
  else if edgePendingFull t then (t, -1)
  -- One pass looks for both duplicates and for the first free slot; a duplicate wins.
  else if (inboundView.find t.slots inboundSlot).isSome then (t, -1)
  else if (outboundView.find t.slots outboundId).isSome then (t, -1)
  else
    match locateFree EdgePendingEntry.used t.slots with
    | none => (t, -1)
    | some (i, _) =>
      let e :=
        newPendingEntry inboundSlot outboundId plugin userTag timeoutMs startedMs principalSub
      ({ slots := t.slots.set i e, count := t.count + 1 }, 0)

/-- `edge_pending_release`, for the entry at an index. -/
def edgePendingRelease (t : EdgePendingTable P) (i : ℕ) : EdgePendingTable P :=
  match t.slots[i]? with
  | none => t
  | some e =>
    if !e.used then t
    else
      { slots := t.slots.set i .zero
        count := if t.count > 0 then t.count - 1 else t.count }

/-- `edge_pending_release_outbound`. -/
def edgePendingReleaseOutbound (t : EdgePendingTable P) (outboundId : UInt64) :
    EdgePendingTable P × ℤ :=
  match edgePendingFindOutbound t outboundId with
  | none => (t, -1)
  | some (i, _) => (edgePendingRelease t i, 0)

/-- `edge_pending_release_inbound`. -/
def edgePendingReleaseInbound (t : EdgePendingTable P) (inboundSlot : UInt32) :
    EdgePendingTable P × ℤ :=
  match edgePendingFindInbound t inboundSlot with
  | none => (t, -1)
  | some (i, _) => (edgePendingRelease t i, 0)

namespace EdgePendingTable

/-- The entry that waits for an inbound slot. -/
def inbound (t : EdgePendingTable P) (slot : UInt32) : Option (EdgePendingEntry P) :=
  inboundView.lookup t.slots slot

/-- The entry that waits for an outbound id. -/
def outbound (t : EdgePendingTable P) (id : UInt64) : Option (EdgePendingEntry P) :=
  outboundView.lookup t.slots id

theorem findInbound_isSome {t : EdgePendingTable P} {slot : UInt32} :
    (edgePendingFindInbound t slot).isSome = (inboundView.find t.slots slot).isSome := by
  rw [Bool.eq_iff_iff, Option.isSome_iff_ne_none, Option.isSome_iff_ne_none, edgePendingFindInbound,
    Ne, SlotView.locate_eq_none]

theorem findOutbound_eq_some {t : EdgePendingTable P} {id : UInt64} {i : ℕ} {e : EdgePendingEntry P}
    (h : edgePendingFindOutbound t id = some (i, e)) :
    t.slots[i]? = some e ∧ e.used = true ∧ e.outboundId = id ∧ t.outbound id = some e := by
  rw [edgePendingFindOutbound] at h
  split at h
  · exact absurd h (by simp)
  · obtain ⟨hfind, he, hused, hid⟩ := SlotView.locate_eq_some h
    exact ⟨he, hused, hid, SlotView.lookup_of_find hfind he⟩

theorem findInbound_eq_some {t : EdgePendingTable P} {slot : UInt32} {i : ℕ}
    {e : EdgePendingEntry P} (h : edgePendingFindInbound t slot = some (i, e)) :
    t.slots[i]? = some e ∧ e.used = true ∧ e.inboundSlot = slot := by
  obtain ⟨-, he, hused, hslot⟩ := SlotView.locate_eq_some h
  exact ⟨he, hused, hslot⟩

/-! ## Insertion -/

/-- Whether `edge_pending_insert` takes an entry for this slot and id. -/
def Accepts (t : EdgePendingTable P) (slot : UInt32) (id : UInt64) : Prop :=
  id ≠ 0 ∧ edgePendingFull t = false ∧ inboundView.find t.slots slot = none ∧
    outboundView.find t.slots id = none ∧ (firstFree EdgePendingEntry.used t.slots).isSome

instance (t : EdgePendingTable P) (slot : UInt32) (id : UInt64) : Decidable (t.Accepts slot id) :=
  inferInstanceAs (Decidable (_ ∧ _))

/-- **What insertion does.** It writes the one new entry into a free slot when the table accepts the
slot and the id, and otherwise leaves the table as it is. -/
theorem insert_cases (t : EdgePendingTable P) (slot : UInt32) (id : UInt64) (p : P) (tag : UInt64)
    (timeout : UInt32) (started : UInt64) (sub : Option Bytes) :
    (t.Accepts slot id ∧ ∃ (i : ℕ) (old : EdgePendingEntry P), t.slots[i]? = some old ∧
      old.used = false ∧ edgePendingInsert t slot id (some p) tag timeout started sub
        = ({ slots := t.slots.set i (newPendingEntry slot id (some p) tag timeout started sub)
             count := t.count + 1 }, 0)) ∨
    (¬ t.Accepts slot id ∧
      edgePendingInsert t slot id (some p) tag timeout started sub = (t, -1)) := by
  simp only [edgePendingInsert, Accepts, Option.isNone_some, Bool.false_eq_true, false_or]
  by_cases hid : id = 0
  · simp [hid]
  by_cases hfull : edgePendingFull t = true
  · simp [hid, hfull]
  cases hin : inboundView.find t.slots slot with
  | some i => simp [hid, hfull]
  | none =>
    cases hout : outboundView.find t.slots id with
    | some i => simp [hid, hfull]
    | none =>
      cases hfree : locateFree EdgePendingEntry.used t.slots with
      | none =>
        have hnone : ¬ (firstFree EdgePendingEntry.used t.slots).isSome := by
          rw [firstFree_isSome_iff, locateFree_eq_none.mp hfree]
          exact lt_irrefl _
        simp [hid, hfull, hnone]
      | some r =>
        obtain ⟨i, old⟩ := r
        obtain ⟨hold, hused⟩ := locateFree_eq_some hfree
        have hsome : (firstFree EdgePendingEntry.used t.slots).isSome := by
          cases hff : firstFree EdgePendingEntry.used t.slots with
          | none => simp [locateFree, hff] at hfree
          | some j => rfl
        refine Or.inl ⟨⟨hid, by simpa using hfull, rfl, rfl, hsome⟩, i, old, hold, hused, ?_⟩
        simp [hid, hfull]

/-- An entry that was inserted is found by its inbound slot. -/
theorem findInbound_insert {t : EdgePendingTable P} {slot : UInt32} {id : UInt64}
    (hacc : t.Accepts slot id) (p : P) (tag : UInt64) (timeout : UInt32) (started : UInt64)
    (sub : Option Bytes) :
    (edgePendingFindInbound (edgePendingInsert t slot id (some p) tag timeout started sub).1
      slot).isSome := by
  obtain ⟨-, i, old, hold, -, heq⟩ | ⟨hn, -⟩ := insert_cases t slot id p tag timeout started sub
  · have hi := (List.getElem?_eq_some_iff.mp hold).1
    rw [heq, findInbound_isSome, Option.isSome_iff_ne_none, Ne, SlotView.find_eq_none]
    intro hnone
    exact hnone _ (List.mem_set hi _) rfl rfl
  · exact absurd hacc hn

/-! ## The invariant -/

/-- Both keys are distinct, entries name a plugin and a non-zero id, and `count` counts them. -/
structure WellFormed (t : EdgePendingTable P) : Prop where
  inboundDistinct : inboundView.Distinct t.slots
  outboundDistinct : outboundView.Distinct t.slots
  named : ∀ e ∈ t.slots, e.used = true → e.plugin.isSome ∧ e.outboundId ≠ 0
  count_eq : t.count = t.slots.countP EdgePendingEntry.used

theorem wellFormed_create (capacity : ℕ) : (edgePendingCreate (P := P) capacity).WellFormed where
  inboundDistinct := by
    intro i j x y hx _ hlive
    obtain rfl := (List.mem_replicate.mp (List.mem_of_getElem? hx)).2
    exact absurd hlive Bool.false_ne_true
  outboundDistinct := by
    intro i j x y hx _ hlive
    obtain rfl := (List.mem_replicate.mp (List.mem_of_getElem? hx)).2
    exact absurd hlive Bool.false_ne_true
  named := by
    intro e he hused
    obtain rfl := (List.mem_replicate.mp he).2
    exact absurd hused Bool.false_ne_true
  count_eq := by simp [edgePendingCreate, List.countP_replicate, EdgePendingEntry.zero]

theorem outbound_create (capacity : ℕ) (id : UInt64) :
    (edgePendingCreate (P := P) capacity).outbound id = none := by
  rw [outbound, SlotView.lookup_eq_none_iff, SlotView.find_eq_none]
  intro e he hused
  obtain rfl := (List.mem_replicate.mp he).2
  exact absurd hused Bool.false_ne_true

variable {t : EdgePendingTable P}

/-- In a well-formed table that is not full, insertion finds a free slot. -/
theorem WellFormed.accepts_iff (ht : t.WellFormed) {slot : UInt32} {id : UInt64} :
    t.Accepts slot id ↔ id ≠ 0 ∧ edgePendingFull t = false ∧ t.inbound slot = none ∧
      t.outbound id = none := by
  have hfree : edgePendingFull t = false → (firstFree EdgePendingEntry.used t.slots).isSome := by
    intro hfull
    rw [firstFree_isSome_iff, ← ht.count_eq]
    simpa [edgePendingFull] using hfull
  rw [Accepts, inbound, outbound, SlotView.lookup_eq_none_iff, SlotView.lookup_eq_none_iff]
  exact ⟨fun ⟨h1, h2, h3, h4, _⟩ => ⟨h1, h2, h3, h4⟩, fun ⟨h1, h2, h3, h4⟩ =>
    ⟨h1, h2, h3, h4, hfree h2⟩⟩

/-- The entry found by an id is one in use that carries it. -/
theorem WellFormed.outbound_eq_some_iff (ht : t.WellFormed) {id : UInt64} {e : EdgePendingEntry P} :
    t.outbound id = some e ↔ e ∈ t.slots ∧ e.used = true ∧ e.outboundId = id :=
  ht.outboundDistinct.lookup_eq_some_iff

/-- Writing an entry under keys that no other entry has keeps the table well formed. -/
private theorem WellFormed.write (ht : t.WellFormed) {i : ℕ} {old e : EdgePendingEntry P}
    (hold : t.slots[i]? = some old) (hfree : old.used = false) (hused : e.used = true)
    (hplugin : e.plugin.isSome) (hacc : t.Accepts e.inboundSlot e.outboundId) :
    WellFormed { slots := t.slots.set i e, count := t.count + 1 } where
  inboundDistinct := by
    refine ht.inboundDistinct.set i e fun _ j y _ hy hlive => ?_
    exact inboundView.find_eq_none.mp hacc.2.2.1 y (List.mem_of_getElem? hy) hlive
  outboundDistinct := by
    refine ht.outboundDistinct.set i e fun _ j y _ hy hlive => ?_
    exact outboundView.find_eq_none.mp hacc.2.2.2.1 y (List.mem_of_getElem? hy) hlive
  named := by
    intro x hx hlive
    rcases List.mem_or_eq_of_mem_set hx with hx | rfl
    · exact ht.named x hx hlive
    · exact ⟨hplugin, hacc.1⟩
  count_eq := by
    have hcount := countP_set_add EdgePendingEntry.used e hold
    simp only [hfree, hused, if_true, Bool.false_eq_true, if_false] at hcount
    show t.count + 1 = (t.slots.set i e).countP EdgePendingEntry.used
    rw [ht.count_eq]
    omega

/-- **Insertion into a well-formed table.** An accepted entry is found by its id, and what is found
by any other id stays. -/
theorem WellFormed.insert (ht : t.WellFormed) {slot : UInt32} {id : UInt64} (p : P) (tag : UInt64)
    (timeout : UInt32) (started : UInt64) (sub : Option Bytes) (hacc : t.Accepts slot id) :
    let t' := (edgePendingInsert t slot id (some p) tag timeout started sub).1
    t'.WellFormed ∧ ∀ id', t'.outbound id' = if id = id'
      then some (newPendingEntry slot id (some p) tag timeout started sub) else t.outbound id' := by
  obtain ⟨-, i, old, hold, hfree, heq⟩ | ⟨hn, -⟩ := insert_cases t slot id p tag timeout started sub
  · have hwf := ht.write hold hfree (e := newPendingEntry slot id (some p) tag timeout started sub)
      rfl rfl hacc
    rw [heq]
    refine ⟨hwf, fun id' => ?_⟩
    rw [outbound, ht.outboundDistinct.lookup_set hold hwf.outboundDistinct]
    simp [outboundView, newPendingEntry, hfree, outbound]
  · exact absurd hacc hn

/-- **Release from a well-formed table.** The entry is gone, and what is found by any other id
stays. -/
theorem WellFormed.release (ht : t.WellFormed) {i : ℕ} {e : EdgePendingEntry P}
    (he : t.slots[i]? = some e) (hused : e.used = true) :
    (edgePendingRelease t i).WellFormed ∧ ∀ id', (edgePendingRelease t i).outbound id'
      = if e.outboundId = id' then none else t.outbound id' := by
  have heq : edgePendingRelease t i = { slots := t.slots.set i .zero
                                        count := if t.count > 0 then t.count - 1 else t.count } := by
    simp [edgePendingRelease, he, hused]
  have hcount := countP_set_add EdgePendingEntry.used .zero he
  simp only [hused, if_true, EdgePendingEntry.zero, Bool.false_eq_true, if_false] at hcount
  have hwf : (edgePendingRelease t i).WellFormed := by
    rw [heq]
    exact
    { inboundDistinct := ht.inboundDistinct.set i _ fun h => absurd h Bool.false_ne_true
      outboundDistinct := ht.outboundDistinct.set i _ fun h => absurd h Bool.false_ne_true
      named := by
        intro x hx hlive
        rcases List.mem_or_eq_of_mem_set hx with hx | rfl
        · exact ht.named x hx hlive
        · exact absurd hlive Bool.false_ne_true
      count_eq := by
        show (if t.count > 0 then t.count - 1 else t.count) = _
        rw [ht.count_eq]
        show _ = (t.slots.set i .zero).countP EdgePendingEntry.used
        simp only [EdgePendingEntry.zero]
        split <;> omega }
  refine ⟨hwf, fun id' => ?_⟩
  rw [heq] at hwf ⊢
  rw [outbound, ht.outboundDistinct.lookup_set he hwf.outboundDistinct]
  simp [outboundView, EdgePendingEntry.zero, hused, outbound]

end EdgePendingTable

end Edgehost
