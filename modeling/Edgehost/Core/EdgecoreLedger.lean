import Edgehost.Core.EdgecoreIds

/-!
# Buffers and the operations on them

`actLog` collects what the operations of a run achieved, and `actsOn` the part of it that concerns one
id. As long as no id comes a second time, the buffer of an id is what its own operations made it, and no
other operation reaches it.

* `Tracks` is the invariant: each slot in use agrees with the operations on its id.
* `buffer_laws` is what a host may rely on.
-/

namespace Edgehost

/-- What the operations of a run achieved, in order. -/
def actLog : Edgecore → List CoreOp → List (UInt32 × BufAct)
  | _, [] => []
  | core, op :: ops => (op.act core).toList ++ actLog (coreStep core op) ops

/-- The part of a log that concerns one id. -/
def actsOn (id : UInt32) (log : List (UInt32 × BufAct)) : List BufAct :=
  (log.filter fun e => e.1 = id).map Prod.snd

/-- The size that an operation asks for. -/
def BufAct.wanted : BufAct → Option ℕ
  | .asked size => some size
  | .grown size => some size
  | _ => none

/-- The buffer that an operation registers. -/
def BufAct.buffer : BufAct → Option (Ptr × ℕ)
  | .provided ptr size => some (ptr, size)
  | _ => none

/-- The size last requested. -/
def lastWanted (acts : List BufAct) : Option ℕ := (acts.filterMap BufAct.wanted).getLast?

/-- The buffer last registered. -/
def lastBuffer (acts : List BufAct) : Option (Ptr × ℕ) := (acts.filterMap BufAct.buffer).getLast?

/-- The id is in use: it was asked for and is not detached. -/
def Held (acts : List BufAct) : Prop :=
  acts ≠ [] ∧ ∀ ptr size, acts.getLast? ≠ some (.detached ptr size)

/-- What a host may rely on, in a core that was reached with this log. `more` is an operation that may
come next. -/
structure BufferLaws (core : Edgecore) (log : List (UInt32 × BufAct)) (more : CoreOp → Prop) : Prop where
  /-- The pointer of an id is readable exactly when the last operation on it was a provide. -/
  ptr_iff : ∀ id, edgecoreBufferPtr core id ≠ 0 ↔
    ∃ ptr size, (actsOn id log).getLast? = some (.provided ptr size)
  /-- Then it is that pointer, with at least the size last requested. -/
  ptr_eq : ∀ id ptr size, (actsOn id log).getLast? = some (.provided ptr size) →
    edgecoreBufferPtr core id = ptr ∧ edgecoreBufferSize core id = size ∧
      ∃ wanted, lastWanted (actsOn id log) = some wanted ∧ wanted ≤ edgecoreBufferSize core id
  /-- An operation that achieves nothing for an id changes nothing of it. -/
  others : ∀ op, more op → ∀ id, (∀ a, op.act core ≠ some (id, a)) →
    edgecoreBufferPtr (coreStep core op) id = edgecoreBufferPtr core id ∧
      edgecoreBufferSize (coreStep core op) id = edgecoreBufferSize core id
  /-- A detach returns the buffer last registered, also while a realloc is pending. -/
  detach : ∀ id, Held (actsOn id log) →
    (edgecoreDetachBuffer core id).2 = some ((lastBuffer (actsOn id log)).getD (0, 0))
  /-- A realloc that is refused leaves the buffer as it is. -/
  refused : ∀ id size, (edgecoreRequestRealloc core id size).2 = -1 →
    edgecoreBufferPtr (edgecoreRequestRealloc core id size).1 id = edgecoreBufferPtr core id ∧
      edgecoreBufferSize (edgecoreRequestRealloc core id size).1 id = edgecoreBufferSize core id

/-! ## Logs -/

theorem actLog_snoc (core : Edgecore) (ops : List CoreOp) (op : CoreOp) :
    actLog core (ops ++ [op])
      = actLog core ops ++ (op.act (runFrom coreStep core ops)).toList := by
  induction ops generalizing core with
  | nil => simp [actLog]
  | cons o ops ih => simp [actLog, ih]

theorem actsOn_append (id : UInt32) (log new : List (UInt32 × BufAct)) :
    actsOn id (log ++ new) = actsOn id log ++ actsOn id new := by
  simp [actsOn]

theorem actsOn_self (id : UInt32) (a : BufAct) : actsOn id [(id, a)] = [a] := by
  simp [actsOn]

theorem actsOn_of_ne {id : UInt32} {act : Option (UInt32 × BufAct)}
    (h : ∀ a, act ≠ some (id, a)) : actsOn id act.toList = [] := by
  rcases act with _ | ⟨k, a⟩
  · rfl
  · have hne : k ≠ id := fun hk => h a (hk ▸ rfl)
    simp [actsOn, hne]

theorem lastWanted_snoc (acts : List BufAct) (a : BufAct) :
    lastWanted (acts ++ [a]) = a.wanted.or (lastWanted acts) := by
  rcases h : a.wanted with _ | n <;> simp [lastWanted, h]

theorem lastBuffer_snoc (acts : List BufAct) (a : BufAct) :
    lastBuffer (acts ++ [a]) = a.buffer.or (lastBuffer acts) := by
  rcases h : a.buffer with _ | n <;> simp [lastBuffer, h]

/-! ## The slot of an id -/

/-- The slot in use that carries an id. -/
def slotOf (core : Edgecore) (id : UInt32) : Option EdgeBufSlot := bufsById.lookup core.bufs id

section SlotOf

variable {core : Edgecore} (hnamed : IdsNameSlots core)

include hnamed

theorem slotOf_eq_some_iff {id : UInt32} {slot : EdgeBufSlot} :
    slotOf core id = some slot ↔ slot ∈ core.bufs ∧ slot.state ≠ .free ∧ slot.allocId = id := by
  rw [slotOf, hnamed.distinct.lookup_eq_some_iff]
  simp [bufsById]

theorem slotOf_zero : slotOf core 0 = none := by
  refine Option.eq_none_iff_forall_ne_some.mpr fun slot hslot => ?_
  obtain ⟨hmem, hused, hid⟩ := (slotOf_eq_some_iff hnamed).mp hslot
  exact hnamed.nonzero slot hmem hused hid

theorem slotOf_of_find {id : UInt32} {i : ℕ} {slot : EdgeBufSlot}
    (hfind : findSlotById core id = some i) (hslot : core.bufs[i]? = some slot) :
    slotOf core id = some slot := by
  obtain ⟨slot', hslot', hused, hid⟩ := findSlotById_some hfind
  obtain rfl := Option.some.inj (hslot.symm.trans hslot')
  exact (slotOf_eq_some_iff hnamed).mpr ⟨List.mem_of_getElem? hslot, hused, hid⟩

/-- The READY slot that carries an id is the slot in use, if that is READY. -/
theorem readyById_lookup (id : UInt32) :
    readyById.lookup core.bufs id = (slotOf core id).filter fun slot => slot.state = .ready := by
  have hdistinct : readyById.Distinct core.bufs := by
    intro i j x y hx hy hlive hlive' hkey
    have hused : ∀ z : EdgeBufSlot, readyById.live z = true → bufsById.live z = true := by
      intro z hz
      have hz : z.state = .ready := by simpa [readyById] using hz
      simp [bufsById, hz]
    exact hnamed.distinct i j x y hx hy (hused x hlive) (hused y hlive') hkey
  refine Option.ext fun slot => ?_
  rw [hdistinct.lookup_eq_some_iff, Option.filter_eq_some_iff, slotOf_eq_some_iff hnamed]
  constructor
  · rintro ⟨hmem, hlive, hkey⟩
    have hready : slot.state = .ready := by simpa [readyById] using hlive
    exact ⟨⟨hmem, by simp [hready], hkey⟩, by simpa using hready⟩
  · rintro ⟨⟨hmem, -, hkey⟩, hready⟩
    exact ⟨hmem, by simpa [readyById] using hready, hkey⟩

/-- A query reads the slot in use, if that is READY. -/
theorem readySlot_query {α : Type} (read : EdgeBufSlot → α) (default : α) (id : UInt32) :
    (if id = 0 then default
      else
        match readyById.lookup core.bufs id with
        | none => default
        | some slot => read slot)
      = (((slotOf core id).filter fun slot => slot.state = .ready).map read).getD default := by
  rw [readyById_lookup hnamed]
  by_cases hzero : id = 0
  · rw [if_pos hzero, hzero, slotOf_zero hnamed]
    rfl
  · rw [if_neg hzero]
    cases (slotOf core id).filter fun slot => slot.state = .ready <;> rfl

theorem edgecoreBufferPtr_eq (id : UInt32) : edgecoreBufferPtr core id
    = (((slotOf core id).filter fun slot => slot.state = .ready).map (·.ptr)).getD 0 :=
  readySlot_query hnamed (·.ptr) 0 id

theorem edgecoreBufferSize_eq (id : UInt32) : edgecoreBufferSize core id
    = (((slotOf core id).filter fun slot => slot.state = .ready).map (·.size)).getD 0 :=
  readySlot_query hnamed (·.size) 0 id

theorem edgecoreDetachBuffer_eq (id : UInt32) : (edgecoreDetachBuffer core id).2
    = (slotOf core id).map fun slot => (slot.ptr, slot.size) := by
  unfold edgecoreDetachBuffer
  split
  · rename_i hzero
    rw [hzero, slotOf_zero hnamed]
    rfl
  · rename_i hid
    rcases hfind : findSlotById core id with _ | i
    · have hnone : slotOf core id = none := by
        rw [findSlotById, if_neg hid] at hfind
        exact SlotView.lookup_eq_none_iff.mpr hfind
      rw [hnone]
      rfl
    · obtain ⟨slot, hslot, -, -⟩ := findSlotById_some hfind
      rw [slotOf_of_find hnamed hfind hslot]
      simp only [hslot]
      rfl

end SlotOf

/-- The slots of the ids after one slot is written. -/
theorem slotOf_set {core core' : Edgecore} (hnamed : IdsNameSlots core) (hnamed' : IdsNameSlots core')
    {i : ℕ} {old slot : EdgeBufSlot} (hold : core.bufs[i]? = some old)
    (hbufs : core'.bufs = core.bufs.set i slot) (id : UInt32) :
    slotOf core' id = if slot.state ≠ .free ∧ slot.allocId = id then some slot
      else if old.state ≠ .free ∧ old.allocId = id then none else slotOf core id := by
  have hset := hnamed.distinct.lookup_set hold (hbufs ▸ hnamed'.distinct) id
  rw [slotOf, slotOf, hbufs, hset]
  simp [bufsById]

/-! ## The invariant -/

/-- A slot in use agrees with the operations on its id. -/
structure Tracks (slot : EdgeBufSlot) (acts : List BufAct) : Prop where
  held : Held acts
  ready : slot.state = .ready → acts.getLast? = some (.provided slot.ptr slot.size) ∧ slot.ptr ≠ 0 ∧
    ∃ wanted, lastWanted acts = some wanted ∧ wanted ≤ slot.size
  pending : slot.state = .pending → (∀ ptr size, acts.getLast? ≠ some (.provided ptr size)) ∧
    lastWanted acts = some slot.requested
  buffer : (lastBuffer acts).getD (0, 0) = (slot.ptr, slot.size)

/-- Every slot in use agrees with the operations on its id; an id without a slot is not held, and no
operation was about an id that is yet to be minted. -/
structure LedgerInv (h : MintHistory) (log : List (UInt32 × BufAct)) : Prop where
  tracks : ∀ id slot, slotOf h.core id = some slot → Tracks slot (actsOn id log)
  gone : ∀ id, slotOf h.core id = none → ¬ Held (actsOn id log)
  minted : ∀ e ∈ log, ∃ k < h.minted, e.1 = idOf k

/-- The first operation on an id. -/
theorem tracks_asked (core : Edgecore) (kind : EdgeBufKind) (size : ℕ) :
    Tracks (askedSlot core kind size) [.asked size] where
  held := ⟨List.cons_ne_nil _ _, fun _ _ h => nomatch h⟩
  ready h := nomatch h
  pending _ := ⟨fun _ _ h => (by cases h), rfl⟩
  buffer := rfl

variable {slot : EdgeBufSlot} {acts : List BufAct}

theorem Tracks.grown (h : Tracks slot acts) (size : ℕ) :
    Tracks { slot with state := .pending, requested := size } (acts ++ [.grown size]) where
  held := ⟨by simp, fun ptr n => by simp⟩
  ready h := nomatch h
  pending _ := ⟨fun ptr n => by simp, by rw [lastWanted_snoc]; rfl⟩
  buffer := by
    rw [lastBuffer_snoc]
    exact h.buffer

theorem Tracks.provided (h : Tracks slot acts) (hpending : slot.state = .pending) {ptr : Ptr}
    (hptr : ptr ≠ 0) {size : ℕ} (hsize : slot.requested ≤ size) :
    Tracks { slot with ptr, size, state := .ready } (acts ++ [.provided ptr size]) where
  held := ⟨by simp, fun p n => by simp⟩
  ready _ := ⟨by simp, hptr, slot.requested, by
    rw [lastWanted_snoc]
    exact (h.pending hpending).2, hsize⟩
  pending h := nomatch h
  buffer := by
    rw [lastBuffer_snoc]
    rfl

theorem Tracks.kept (h : Tracks slot acts) (hready : slot.state = .ready) (size : ℕ) :
    Tracks { slot with state := .ready, requested := size } acts where
  held := h.held
  ready _ := h.ready hready
  pending h := nomatch h
  buffer := h.buffer

/-- The invariant after an operation that reaches the slot of one id and logs it. -/
private theorem LedgerInv.reach {h h' : MintHistory} {log : List (UInt32 × BufAct)}
    (hinv : LedgerInv h log) {id : UInt32} {act : Option (UInt32 × BufAct)}
    (hlog : ∀ k, k ≠ id → ∀ a, act ≠ some (k, a))
    (hothers : ∀ k, k ≠ id → slotOf h'.core k = slotOf h.core k)
    (hself : ∀ slot, slotOf h'.core id = some slot → Tracks slot (actsOn id (log ++ act.toList)))
    (hgone : slotOf h'.core id = none → ¬ Held (actsOn id (log ++ act.toList)))
    (hle : h.minted ≤ h'.minted) (hid : ∃ k < h'.minted, id = idOf k) :
    LedgerInv h' (log ++ act.toList) := by
  have hsame : ∀ k, k ≠ id → actsOn k (log ++ act.toList) = actsOn k log := fun k hk => by
    rw [actsOn_append, actsOn_of_ne (hlog k hk), List.append_nil]
  refine ⟨fun k slot hslot => ?_, fun k hk => ?_, fun e he => ?_⟩
  · by_cases hki : k = id
    · subst hki
      exact hself slot hslot
    · rw [hothers k hki] at hslot
      rw [hsame k hki]
      exact hinv.tracks k slot hslot
  · by_cases hki : k = id
    · subst hki
      exact hgone hk
    · rw [hothers k hki] at hk
      rw [hsame k hki]
      exact hinv.gone k hk
  · rcases List.mem_append.mp he with he | he
    · obtain ⟨k, hk, heq⟩ := hinv.minted e he
      exact ⟨k, hk.trans_le hle, heq⟩
    · have hact : act = some e := by simpa using he
      by_cases hei : e.1 = id
      · rw [hei]
        exact hid
      · exact absurd hact (hlog e.1 hei e.2)

/-- The invariant after an operation that writes the slot of one id. -/
private theorem LedgerInv.written {h h' : MintHistory} {log : List (UInt32 × BufAct)}
    (hinv : LedgerInv h log) {id : UInt32} {act : Option (UInt32 × BufAct)} {new : EdgeBufSlot}
    (hlog : ∀ k, k ≠ id → ∀ a, act ≠ some (k, a))
    (hothers : ∀ k, k ≠ id → slotOf h'.core k = slotOf h.core k)
    (hself : slotOf h'.core id = some new) (htracks : Tracks new (actsOn id (log ++ act.toList)))
    (hle : h.minted ≤ h'.minted) (hid : ∃ k < h'.minted, id = idOf k) :
    LedgerInv h' (log ++ act.toList) := by
  refine hinv.reach hlog hothers (fun slot hslot => ?_) (fun hnone => ?_) hle hid
  · obtain rfl := Option.some.inj (hself.symm.trans hslot)
    exact htracks
  · rw [hself] at hnone
    cases hnone

/-- The invariant after an operation that achieves nothing and reaches no slot in use. -/
private theorem LedgerInv.quiet {h h' : MintHistory} {log : List (UInt32 × BufAct)}
    (hinv : LedgerInv h log) (hsame : ∀ k, slotOf h'.core k = slotOf h.core k)
    (hle : h.minted ≤ h'.minted) : LedgerInv h' (log ++ (none : Option (UInt32 × BufAct)).toList) where
  tracks k slot hslot := by
    rw [Option.toList_none, List.append_nil]
    exact hinv.tracks k slot (hsame k ▸ hslot)
  gone k hk := by
    rw [Option.toList_none, List.append_nil]
    exact hinv.gone k (hsame k ▸ hk)
  minted e he := by
    rw [Option.toList_none, List.append_nil] at he
    obtain ⟨k, hk, heq⟩ := hinv.minted e he
    exact ⟨k, hk.trans_le hle, heq⟩

/-- No operation was about the next id, before the ids come a second time. -/
theorem LedgerInv.fresh {h : MintHistory} {log : List (UInt32 × BufAct)} (hinv : LedgerInv h log)
    (hfew : h.minted < ID_PERIOD) : actsOn (idOf h.minted) log = [] := by
  simp only [actsOn, List.map_eq_nil_iff, List.filter_eq_nil_iff, decide_eq_true_eq]
  intro e he heq
  obtain ⟨k, hk, hek⟩ := hinv.minted e he
  have := Nat.ModEq.eq_of_lt_of_lt (idOf_eq_iff.mp (hek.symm.trans heq)) (hk.trans hfew) hfew
  omega

/-- The slot of the id that a write reaches, and the slots of the others. -/
private theorem slotOf_write {core core' : Edgecore} (hnamed : IdsNameSlots core)
    (hnamed' : IdsNameSlots core') {i : ℕ} {slot new : EdgeBufSlot} (hslot : core.bufs[i]? = some slot)
    (hbufs : core'.bufs = core.bufs.set i new) (hid : new.allocId = slot.allocId)
    (hnew : new.state ≠ .free) :
    slotOf core' slot.allocId = some new ∧
      ∀ k, k ≠ slot.allocId → slotOf core' k = slotOf core k := by
  have hset := slotOf_set hnamed hnamed' hslot hbufs
  refine ⟨by rw [hset, if_pos ⟨hnew, hid⟩], fun k hk => ?_⟩
  rw [hset, if_neg fun ⟨_, heq⟩ => hk (heq.symm.trans hid), if_neg fun ⟨_, heq⟩ => hk heq.symm]

/-- **One step** keeps the slots in use in agreement with the log. -/
theorem LedgerInv.step {h : MintHistory} {log : List (UInt32 × BufAct)} (hledger : LedgerInv h log)
    (hinv : h.Inv) (hnamed : h.Named) {op : CoreOp} (hnamed' : (h.step op).Named)
    (hfew : h.minted < ID_PERIOD) : LedgerInv (h.step op) (log ++ (op.act h.core).toList) := by
  have hmint := (mintAllocId_idOf hinv.next).1
  have hle : h.minted ≤ (h.step op).minted := by
    show h.minted ≤ if op.Mints h.core then h.minted + 1 else h.minted
    split <;> omega
  have heff := op.apply_bufEffect hinv.ring
  generalize op.act h.core = act at heff
  -- Whatever is in use was minted before, so its id is older than the next.
  have hborn : ∀ {i : ℕ} {slot : EdgeBufSlot}, h.core.bufs[i]? = some slot → slot.state ≠ .free →
      ∃ k < (h.step op).minted, slot.allocId = idOf k := fun hslot hused =>
    ⟨_, (hinv.ids _ _ hslot hused).2.trans_le hle, (hinv.ids _ _ hslot hused).1⟩
  cases heff with
  | same hno hbufs hnext hev =>
    refine hledger.quiet (fun k => ?_) hle
    show bufsById.lookup (op.apply h.core).1.bufs k = _
    rw [hbufs]
    rfl
  | asked hop hroom i old kind size hold hfree hbufs hnext hev =>
    have hset := slotOf_set hnamed hnamed' hold hbufs
    have hid : (askedSlot h.core kind size).allocId = idOf h.minted := hmint
    have hminted : (h.step op).minted = h.minted + 1 := if_pos hop
    have hself : slotOf (h.step op).core (idOf h.minted) = some (askedSlot h.core kind size) := by
      rw [hset, if_pos ⟨by simp [askedSlot], hid⟩]
    rw [hmint]
    refine hledger.written (fun k hk a ha => hk (by cases ha; rfl)) (fun k hk => ?_) hself ?_ hle
      ⟨h.minted, by omega, rfl⟩
    · rw [hset, if_neg fun ⟨_, heq⟩ => hk (heq.symm.trans hid), if_neg fun ⟨hused, _⟩ => hused hfree]
    · rw [actsOn_append, Option.toList_some, actsOn_self, hledger.fresh hfew, List.nil_append]
      exact tracks_asked h.core kind size
  -- The request had no room in the queue: its slot is free again, as if nothing had been asked.
  | dropped hop hfull i old hold hfree hbufs hnext hev =>
    refine hledger.quiet (fun k => ?_) hle
    rw [slotOf_set hnamed hnamed' hold hbufs, if_neg fun ⟨hused, _⟩ => hused rfl,
      if_neg fun ⟨hused, _⟩ => hused hfree]
  | grown hno i slot size hfind hslot hready hbufs hnext hev =>
    have hused : slot.state ≠ .free := by simp [hready]
    obtain ⟨hself, hothers⟩ := slotOf_write hnamed hnamed' hslot hbufs rfl (by simp)
    refine hledger.written (fun k hk a ha => hk (by cases ha; rfl)) hothers hself ?_ hle
      (hborn hslot hused)
    rw [actsOn_append, Option.toList_some, actsOn_self]
    exact (hledger.tracks _ slot (slotOf_of_find hnamed hfind hslot)).grown size
  | kept hno i slot hslot hready hbufs hnext hev =>
    have hused : slot.state ≠ .free := by simp [hready]
    have hfind := hnamed.found i slot hslot hused
    obtain ⟨hself, hothers⟩ := slotOf_write hnamed hnamed' hslot hbufs rfl (by simp)
    refine hledger.written (fun k hk a ha => nomatch ha) hothers hself ?_ hle (hborn hslot hused)
    rw [Option.toList_none, List.append_nil]
    exact (hledger.tracks _ slot (slotOf_of_find hnamed hfind hslot)).kept hready _
  | provided hno i slot ptr size hfind hslot hpending hptr hsize hbufs hnext hev =>
    have hused : slot.state ≠ .free := by simp [hpending]
    obtain ⟨hself, hothers⟩ := slotOf_write hnamed hnamed' hslot hbufs rfl (by simp)
    refine hledger.written (fun k hk a ha => hk (by cases ha; rfl)) hothers hself ?_ hle
      (hborn hslot hused)
    rw [actsOn_append, Option.toList_some, actsOn_self]
    exact (hledger.tracks _ slot (slotOf_of_find hnamed hfind hslot)).provided hpending hptr hsize
  -- The id now names nothing, so its history ends with the detach.
  | detached hno i slot hfind hslot hbufs hnext hev =>
    obtain ⟨hmem, hused, -⟩ := (slotOf_eq_some_iff hnamed).mp (slotOf_of_find hnamed hfind hslot)
    have hset := slotOf_set hnamed hnamed' hslot hbufs
    have hself : slotOf (h.step op).core slot.allocId = none := by
      rw [hset, if_neg fun ⟨hne, _⟩ => hne rfl, if_pos ⟨hused, rfl⟩]
    refine hledger.reach (fun k hk a ha => hk (by cases ha; rfl)) (fun k hk => ?_) (fun x hx => ?_)
      (fun _ hheld => ?_) hle (hborn hslot hused)
    · rw [hset, if_neg fun ⟨hne, _⟩ => hne rfl, if_neg fun ⟨_, heq⟩ => hk heq.symm]
    · rw [hself] at hx
      cases hx
    · rw [actsOn_append, Option.toList_some, actsOn_self] at hheld
      exact hheld.2 slot.ptr slot.size (by simp)

/-! ## Runs -/

theorem ledgerInv_create (eventQueueSize : ℕ) : LedgerInv (MintHistory.create eventQueueSize) [] where
  tracks id slot hslot := by
    obtain ⟨hmem, hused, -⟩ := (slotOf_eq_some_iff (MintHistory.named_create eventQueueSize)).mp hslot
    rw [List.eq_of_mem_replicate hmem] at hused
    exact absurd rfl hused
  gone _ _ hheld := hheld.1 rfl
  minted _ he := absurd he List.not_mem_nil

/-- The core of a history is the core of the run. -/
theorem core_run (h : MintHistory) (ops : List CoreOp) :
    (runFrom MintHistory.step h ops).core = runFrom coreStep h.core ops := by
  induction ops generalizing h with
  | nil => rfl
  | cons op ops ih => exact ih (h.step op)

theorem minted_run_le (h : MintHistory) (ops : List CoreOp) :
    (runFrom MintHistory.step h ops).minted ≤ h.minted + ops.countP MintHistory.isRequest := by
  induction ops generalizing h with
  | nil => exact Nat.le_refl _
  | cons op ops ih =>
    have hstep := MintHistory.minted_step_le h op
    rw [runFrom_cons, List.countP_cons]
    exact (ih (h.step op)).trans (by omega)

/-- **The invariant over a run** with fewer requests than there are ids. -/
theorem ledgerInv_run (eventQueueSize : ℕ) {ops : List CoreOp}
    (hfew : ops.countP MintHistory.isRequest < ID_PERIOD) :
    let h := runFrom MintHistory.step (MintHistory.create eventQueueSize) ops
    h.Inv ∧ h.Named ∧ LedgerInv h (actLog (edgecoreCreateWithConfig eventQueueSize) ops) := by
  induction ops using List.reverseRecOn with
  | nil =>
    exact ⟨MintHistory.inv_create eventQueueSize, MintHistory.named_create eventQueueSize,
      ledgerInv_create eventQueueSize⟩
  | append_singleton ops op ih =>
    have hnamed' : (runFrom MintHistory.step (.create eventQueueSize) (ops ++ [op])).Named :=
      (MintHistory.named_of_few (MintHistory.inv_create eventQueueSize)
        (MintHistory.named_create eventQueueSize) (by rwa [MintHistory.create, Nat.zero_add])).last
    rw [List.countP_append] at hfew
    obtain ⟨hinv, hnamed, hledger⟩ := ih (by omega)
    have hminted := minted_run_le (MintHistory.create eventQueueSize) ops
    have hcore : runFrom coreStep (edgecoreCreateWithConfig eventQueueSize) ops
        = (runFrom MintHistory.step (.create eventQueueSize) ops).core :=
      (core_run (.create eventQueueSize) ops).symm
    rw [runFrom_append] at hnamed' ⊢
    rw [actLog_snoc, hcore]
    refine ⟨hinv.step op, hnamed', hledger.step hinv hnamed hnamed' (hminted.trans_lt ?_)⟩
    rw [MintHistory.create, Nat.zero_add]
    omega

/-- An operation that achieves nothing for an id leaves its slot as it is, but for what a refused
realloc writes to it. -/
theorem slotOf_others {h : MintHistory} (hinv : h.Inv) (hnamed : h.Named) {op : CoreOp}
    (hnamed' : (h.step op).Named) {id : UInt32} (hact : ∀ a, op.act h.core ≠ some (id, a)) :
    slotOf (h.step op).core id = slotOf h.core id ∨
      ∃ slot, slotOf h.core id = some slot ∧ slot.state = .ready ∧
        slotOf (h.step op).core id = some { slot with state := .ready, requested := slot.size } := by
  have heff := op.apply_bufEffect hinv.ring
  generalize op.act h.core = act at heff hact
  have hwrite : ∀ {i : ℕ} {slot new : EdgeBufSlot}, h.core.bufs[i]? = some slot →
      (coreStep h.core op).bufs = h.core.bufs.set i new → slot.allocId ≠ id →
      (new.state ≠ .free → new.allocId = slot.allocId) →
      slotOf (h.step op).core id = slotOf h.core id := by
    intro i slot new hslot hbufs hne hid
    rw [slotOf_set hnamed hnamed' hslot hbufs,
      if_neg fun ⟨hused, heq⟩ => hne ((hid hused).symm.trans heq), if_neg fun ⟨_, heq⟩ => hne heq]
  cases heff with
  | same hno hbufs hnext hev =>
    refine .inl ?_
    show bufsById.lookup (op.apply h.core).1.bufs id = _
    rw [hbufs]
    rfl
  | asked hop hroom i old kind size hold hfree hbufs hnext hev =>
    refine .inl ?_
    rw [slotOf_set hnamed hnamed' hold hbufs,
      if_neg fun ⟨_, heq⟩ => hact (.asked size) (by rw [← heq]; rfl),
      if_neg fun ⟨hused, _⟩ => hused hfree]
  | dropped hop hfull i old hold hfree hbufs hnext hev =>
    refine .inl ?_
    rw [slotOf_set hnamed hnamed' hold hbufs, if_neg fun ⟨hused, _⟩ => hused rfl,
      if_neg fun ⟨hused, _⟩ => hused hfree]
  | grown hno i slot size hfind hslot hready hbufs hnext hev =>
    exact .inl (hwrite hslot hbufs (fun heq => hact _ (by rw [heq])) fun _ => rfl)
  | kept hno i slot hslot hready hbufs hnext hev =>
    have hused : slot.state ≠ .free := by simp [hready]
    by_cases hid : slot.allocId = id
    · refine .inr ⟨slot, ?_, hready, ?_⟩
      · exact (slotOf_eq_some_iff hnamed).mpr ⟨List.mem_of_getElem? hslot, hused, hid⟩
      · rw [slotOf_set hnamed hnamed' hslot hbufs, if_pos ⟨by simp, hid⟩]
    · exact .inl (hwrite hslot hbufs hid fun _ => rfl)
  | provided hno i slot ptr size hfind hslot hpending hptr hsize hbufs hnext hev =>
    exact .inl (hwrite hslot hbufs (fun heq => hact _ (by rw [heq])) fun _ => rfl)
  | detached hno i slot hfind hslot hbufs hnext hev =>
    exact .inl (hwrite hslot hbufs (fun heq => hact _ (by rw [heq])) fun hused => absurd rfl hused)

/-- What the pointer and the size of an id are read from. -/
theorem buffer_eq_of_slotOf {core core' : Edgecore} (hnamed : IdsNameSlots core)
    (hnamed' : IdsNameSlots core') {id : UInt32}
    (h : slotOf core' id = slotOf core id ∨ ∃ slot, slotOf core id = some slot ∧
      slot.state = .ready ∧
      slotOf core' id = some { slot with state := .ready, requested := slot.size }) :
    edgecoreBufferPtr core' id = edgecoreBufferPtr core id ∧
      edgecoreBufferSize core' id = edgecoreBufferSize core id := by
  rw [edgecoreBufferPtr_eq hnamed', edgecoreBufferPtr_eq hnamed, edgecoreBufferSize_eq hnamed',
    edgecoreBufferSize_eq hnamed]
  rcases h with heq | ⟨slot, hslot, hready, heq⟩
  · rw [heq]
    exact ⟨rfl, rfl⟩
  · rw [heq, hslot]
    simp [Option.filter, hready]

/-- The pointer of an id is readable while its slot is READY. -/
theorem buffer_of_slotOf {core : Edgecore} (hnamed : IdsNameSlots core) {id : UInt32}
    {slot : EdgeBufSlot} (hslot : slotOf core id = some slot) :
    (slot.state = .ready ∧ edgecoreBufferPtr core id = slot.ptr ∧
      edgecoreBufferSize core id = slot.size) ∨
    (slot.state = .pending ∧ edgecoreBufferPtr core id = 0) := by
  rw [edgecoreBufferPtr_eq hnamed, edgecoreBufferSize_eq hnamed, hslot]
  rcases hst : slot.state with _ | _ | _
  · exact absurd hst ((slotOf_eq_some_iff hnamed).mp hslot).2.1
  · exact .inr ⟨rfl, by simp [Option.filter, hst]⟩
  · exact .inl ⟨rfl, by simp [Option.filter, hst]⟩

/-- An id that was provided last has a READY slot with that buffer. -/
theorem LedgerInv.slot_of_provided {h : MintHistory} {log : List (UInt32 × BufAct)}
    (hledger : LedgerInv h log) (hnamed : h.Named) {id : UInt32} {ptr : Ptr} {size : ℕ}
    (hlast : (actsOn id log).getLast? = some (.provided ptr size)) :
    ∃ slot, slotOf h.core id = some slot ∧ slot.state = .ready ∧ slot.ptr = ptr ∧ slot.size = size ∧
      Tracks slot (actsOn id log) := by
  have hheld : Held (actsOn id log) := by
    refine ⟨fun hnil => ?_, fun p n => ?_⟩
    · rw [hnil] at hlast
      cases hlast
    · rw [hlast]
      simp
  rcases hslot : slotOf h.core id with _ | slot
  · exact absurd hheld (hledger.gone id hslot)
  · have htracks := hledger.tracks id slot hslot
    rcases buffer_of_slotOf hnamed hslot with ⟨hready, -⟩ | ⟨hpending, -⟩
    · have heq := (htracks.ready hready).1.symm.trans hlast
      obtain ⟨rfl, rfl⟩ := BufAct.provided.inj (Option.some.inj heq)
      exact ⟨slot, rfl, hready, rfl, rfl, htracks⟩
    · exact absurd hlast ((htracks.pending hpending).1 ptr size)

/-- **What a host may rely on.** In every run with fewer than `2 ^ 32 - 1` requests, the buffer of an id
is what the operations on that id made it. -/
theorem buffer_laws (eventQueueSize : ℕ) (ops : List CoreOp)
    (hfew : ops.countP MintHistory.isRequest < 2 ^ 32 - 1) :
    BufferLaws (runFrom coreStep (edgecoreCreateWithConfig eventQueueSize) ops)
      (actLog (edgecoreCreateWithConfig eventQueueSize) ops)
      (fun op => (ops ++ [op]).countP MintHistory.isRequest < 2 ^ 32 - 1) := by
  obtain ⟨hinv, hnamed, hledger⟩ := ledgerInv_run eventQueueSize hfew
  have hnext : ∀ op, (ops ++ [op]).countP MintHistory.isRequest < 2 ^ 32 - 1 →
      ((runFrom MintHistory.step (.create eventQueueSize) ops).step op).Named := fun op hop => by
    have := (ledgerInv_run eventQueueSize hop).2.1
    rwa [runFrom_append] at this
  have hcore : runFrom coreStep (edgecoreCreateWithConfig eventQueueSize) ops
      = (runFrom MintHistory.step (.create eventQueueSize) ops).core :=
    (core_run (.create eventQueueSize) ops).symm
  rw [hcore]
  generalize runFrom MintHistory.step (.create eventQueueSize) ops = h at *
  generalize actLog (edgecoreCreateWithConfig eventQueueSize) ops = log at *
  -- What an operation does not name keeps its buffer; the last law is this one for a refused growth.
  have hothers : ∀ op, (ops ++ [op]).countP MintHistory.isRequest < 2 ^ 32 - 1 →
      ∀ id, (∀ a, op.act h.core ≠ some (id, a)) →
        edgecoreBufferPtr (coreStep h.core op) id = edgecoreBufferPtr h.core id ∧
          edgecoreBufferSize (coreStep h.core op) id = edgecoreBufferSize h.core id :=
    fun op hop id hact => buffer_eq_of_slotOf hnamed (hnext op hop)
      (slotOf_others hinv hnamed (hnext op hop) hact)
  refine ⟨fun id => ⟨fun hptr => ?_, ?_⟩, ?_, hothers, fun id hheld => ?_, fun id size hrc => ?_⟩
  · rcases hslot : slotOf h.core id with _ | slot
    · rw [edgecoreBufferPtr_eq hnamed, hslot] at hptr
      exact absurd rfl hptr
    · rcases buffer_of_slotOf hnamed hslot with ⟨hready, -⟩ | ⟨-, hzero⟩
      · exact ⟨_, _, ((hledger.tracks id slot hslot).ready hready).1⟩
      · exact absurd hzero hptr
  · rintro ⟨ptr, size, hlast⟩
    obtain ⟨slot, hslot, hready, -, -, htracks⟩ := hledger.slot_of_provided hnamed hlast
    rcases buffer_of_slotOf hnamed hslot with ⟨-, hptr, -⟩ | ⟨hpending, -⟩
    · rw [hptr]
      exact (htracks.ready hready).2.1
    · rw [hready] at hpending
      cases hpending
  · intro id ptr size hlast
    obtain ⟨slot, hslot, hready, rfl, rfl, htracks⟩ := hledger.slot_of_provided hnamed hlast
    rcases buffer_of_slotOf hnamed hslot with ⟨-, hptr, hsize⟩ | ⟨hpending, -⟩
    · rw [hsize]
      exact ⟨hptr, rfl, (htracks.ready hready).2.2⟩
    · rw [hready] at hpending
      cases hpending
  · rw [edgecoreDetachBuffer_eq hnamed]
    rcases hslot : slotOf h.core id with _ | slot
    · exact absurd hheld (hledger.gone id hslot)
    · rw [(hledger.tracks id slot hslot).buffer]
      rfl
  · refine hothers (.requestRealloc id size) ?_ id fun a ha => ?_
    · rw [List.countP_append]
      exact hfew
    · simp [CoreOp.act, hrc] at ha

theorem buffer_laws_grownRun :
    BufferLaws (runFrom coreStep (edgecoreCreateWithConfig 4) grownRun)
      (actLog (edgecoreCreateWithConfig 4) grownRun)
      (fun op => (grownRun ++ [op]).countP MintHistory.isRequest < 2 ^ 32 - 1) :=
  buffer_laws 4 grownRun (by decide)

end Edgehost
