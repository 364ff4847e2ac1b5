import Edgehost.Core.EdgecoreRequests

/-!
# What an operation does to the buffers

`CoreOp.act` is what an operation achieves for the buffer of one id, read off its return value, and
`BufEffect` lists everything an operation can do to the buffer table, to the counter of ids and to the
requests in the ring.

* `CoreOp.apply_bufEffect`: every operation has one of these effects.
* `always_pullsHonest`: as long as no buffer is provided or detached while its request is still queued, every
  request that the host pulls names a slot that waits for just that.
-/

namespace Edgehost

/-- What happens to the buffer of an id. -/
inductive BufAct
  | asked (size : ℕ)
  | grown (size : ℕ)
  | provided (ptr : Ptr) (size : ℕ)
  | detached (ptr : Ptr) (size : ℕ)
  deriving DecidableEq

/-- What a successful operation does, and to the buffer of which id. -/
def CoreOp.act (core : Edgecore) : CoreOp → Option (UInt32 × BufAct)
  | .requestAlloc kind size =>
    let id := (edgecoreRequestAlloc core kind size).2
    if id = 0 then none else some (id, .asked size)
  | .requestRealloc allocId newSize =>
    if (edgecoreRequestRealloc core allocId newSize).2 = 0 then some (allocId, .grown newSize)
    else none
  | .provideBuffer allocId ptr size =>
    if (edgecoreProvideBuffer core allocId ptr size).2 = 0 then some (allocId, .provided ptr size)
    else none
  | .detachBuffer allocId =>
    (edgecoreDetachBuffer core allocId).2.map fun r => (allocId, .detached r.1 r.2)
  | _ => none

/-- The operation gets as far as minting an id. -/
def CoreOp.Mints (core : Edgecore) : CoreOp → Prop
  | .requestAlloc kind size => size ≠ 0 ∧ kind ≠ .none ∧ findFreeSlot core ≠ none
  | _ => False

instance (core : Edgecore) : DecidablePred (CoreOp.Mints core)
  | .requestAlloc _ _ => inferInstanceAs (Decidable (_ ∧ _ ∧ _))
  | .requestRealloc _ _ => inferInstanceAs (Decidable False)
  | .provideBuffer _ _ _ => inferInstanceAs (Decidable False)
  | .detachBuffer _ => inferInstanceAs (Decidable False)
  | .applyConfig _ => inferInstanceAs (Decidable False)
  | .notifyConfigRejected _ => inferInstanceAs (Decidable False)
  | .nextEvent => inferInstanceAs (Decidable False)

/-- The event asks for memory. -/
def EdgeEvent.isNeed (ev : EdgeEvent) : Prop := ev.type = .needAlloc ∨ ev.type = .needRealloc

instance (ev : EdgeEvent) : Decidable ev.isNeed := inferInstanceAs (Decidable (_ ∨ _))

/-- The requests in the ring afterwards were there before. -/
def NoNewNeed (core core' : Edgecore) : Prop :=
  ∀ ev ∈ core'.events.contents, ev.isNeed → ev ∈ core.events.contents

/-- The slot of a new request. -/
def askedSlot (core : Edgecore) (kind : EdgeBufKind) (size : ℕ) : EdgeBufSlot where
  state := .pending
  kind := kind
  allocId := (mintAllocId core).2
  requested := size

/-- Everything one operation can do to the buffers; `mints` says whether it mints an id. -/
inductive BufEffect (core core' : Edgecore) (mints : Prop) : Option (UInt32 × BufAct) → Prop
  /-- No buffer is touched. -/
  | same (hno : ¬mints) (hbufs : core'.bufs = core.bufs) (hnext : core'.nextAllocId = core.nextAllocId)
      (hev : NoNewNeed core core') : BufEffect core core' mints none
  /-- A free slot turns PENDING under a new id, and its request is queued. -/
  | asked (hmint : mints) (hroom : core.events.cnt < core.events.cap) (i : ℕ) (old : EdgeBufSlot)
      (kind : EdgeBufKind) (size : ℕ)
      (hold : core.bufs[i]? = some old) (hfree : old.state = .free)
      (hbufs : core'.bufs = core.bufs.set i (askedSlot core kind size))
      (hnext : core'.nextAllocId = (mintAllocId core).1.nextAllocId)
      (hev : core'.events.contents
        = core.events.contents ++ [needAllocEvent (mintAllocId core).2 kind size]) :
      BufEffect core core' mints (some ((mintAllocId core).2, .asked size))
  /-- The ring is full: the id is spent and the slot stays free. -/
  | dropped (hmint : mints) (hfull : core.events.cap ≤ core.events.cnt) (i : ℕ) (old : EdgeBufSlot)
      (hold : core.bufs[i]? = some old) (hfree : old.state = .free)
      (hbufs : core'.bufs = core.bufs.set i {})
      (hnext : core'.nextAllocId = (mintAllocId core).1.nextAllocId)
      (hev : NoNewNeed core core') : BufEffect core core' mints none
  /-- A READY slot turns PENDING, and the request to grow it is queued. -/
  | grown (hno : ¬mints) (i : ℕ) (slot : EdgeBufSlot) (size : ℕ)
      (hfind : findSlotById core slot.allocId = some i)
      (hslot : core.bufs[i]? = some slot) (hready : slot.state = .ready)
      (hbufs : core'.bufs = core.bufs.set i { slot with state := .pending, requested := size })
      (hnext : core'.nextAllocId = core.nextAllocId)
      (hev : core'.events.contents
        = core.events.contents ++ [needReallocEvent slot.allocId slot size]) :
      BufEffect core core' mints (some (slot.allocId, .grown size))
  /-- The ring is full: the slot stays READY. -/
  | kept (hno : ¬mints) (i : ℕ) (slot : EdgeBufSlot) (hslot : core.bufs[i]? = some slot)
      (hready : slot.state = .ready)
      (hbufs : core'.bufs = core.bufs.set i { slot with state := .ready, requested := slot.size })
      (hnext : core'.nextAllocId = core.nextAllocId) (hev : NoNewNeed core core') :
      BufEffect core core' mints none
  /-- A PENDING slot gets its buffer. -/
  | provided (hno : ¬mints) (i : ℕ) (slot : EdgeBufSlot) (ptr : Ptr) (size : ℕ)
      (hfind : findSlotById core slot.allocId = some i) (hslot : core.bufs[i]? = some slot)
      (hpending : slot.state = .pending) (hptr : ptr ≠ 0) (hsize : slot.requested ≤ size)
      (hbufs : core'.bufs = core.bufs.set i { slot with ptr, size, state := .ready })
      (hnext : core'.nextAllocId = core.nextAllocId) (hev : core'.events = core.events) :
      BufEffect core core' mints (some (slot.allocId, .provided ptr size))
  /-- A slot in use is cleared, and its buffer handed back. -/
  | detached (hno : ¬mints) (i : ℕ) (slot : EdgeBufSlot)
      (hfind : findSlotById core slot.allocId = some i) (hslot : core.bufs[i]? = some slot)
      (hbufs : core'.bufs = core.bufs.set i {})
      (hnext : core'.nextAllocId = core.nextAllocId) (hev : core'.events = core.events) :
      BufEffect core core' mints (some (slot.allocId, .detached slot.ptr slot.size))

/-! ## The ring -/

theorem noNewNeed_refl (core : Edgecore) : NoNewNeed core core := fun _ h _ => h

/-- Overwriting the oldest event with a report brings no request. -/
theorem noNewNeed_lost {core core' : Edgecore} (hring : core.events.WF)
    (hfull : core.events.cap ≤ core.events.cnt)
    (hev : core'.events = core.events.setFront overflowEvent) : NoNewNeed core core' := by
  intro ev hmem hneed
  rw [hev, hring.contents_setFront (lt_of_lt_of_le hring.cap_pos hfull)] at hmem
  rcases List.mem_cons.mp hmem with rfl | hmem
  · rcases hneed with h | h <;> cases h
  · exact List.mem_of_mem_tail hmem

/-- A report that is emitted beside an unchanged ring brings no request. -/
theorem noNewNeed_report {core core₀ : Edgecore} (hring : core.events.WF)
    (hsame : core₀.events = core.events) {ev : EdgeEvent} (hev : ¬ ev.isNeed) :
    NoNewNeed core (emitEvent core₀ ev).1 := by
  rcases emitEvent_cases core₀ ev with ⟨hroom, heq⟩ | ⟨hfull, heq⟩
  · intro ev' hmem hneed
    rw [hsame] at hroom
    rw [heq] at hmem
    simp only [hsame, hring.contents_pushBack hroom] at hmem
    rcases List.mem_append.mp hmem with hmem | hmem
    · exact hmem
    · rw [List.mem_singleton.mp hmem] at hneed
      exact absurd hneed hev
  · refine noNewNeed_lost hring (hsame ▸ hfull) ?_
    rw [heq, ← hsame]

theorem emitEvent_bufs (core : Edgecore) (ev : EdgeEvent) :
    (emitEvent core ev).1.bufs = core.bufs ∧
      (emitEvent core ev).1.nextAllocId = core.nextAllocId := by
  rcases emitEvent_cases core ev with ⟨-, heq⟩ | ⟨-, heq⟩ <;> rw [heq] <;> exact ⟨rfl, rfl⟩

/-! ## The operations -/

theorem mintAllocId_ne_zero (core : Edgecore) : (mintAllocId core).2 ≠ 0 := by
  unfold mintAllocId
  by_cases h : core.nextAllocId = 0
  · simp [h]
  · simp [h]

theorem edgecoreRequestAlloc_bufEffect {core : Edgecore} (hring : core.events.WF) (kind : EdgeBufKind)
    (size : ℕ) : BufEffect core (edgecoreRequestAlloc core kind size).1
      ((CoreOp.requestAlloc kind size).Mints core) ((CoreOp.requestAlloc kind size).act core) := by
  have hrefused : ¬ (CoreOp.requestAlloc kind size).Mints core →
      edgecoreRequestAlloc core kind size = (core, 0) →
      BufEffect core (edgecoreRequestAlloc core kind size).1
        ((CoreOp.requestAlloc kind size).Mints core) ((CoreOp.requestAlloc kind size).act core) := by
    intro hno heq
    rw [CoreOp.act, heq]
    exact .same hno rfl rfl (noNewNeed_refl core)
  by_cases hbad : size = 0 ∨ kind = .none
  · exact hrefused (fun ⟨hsize, hkind, _⟩ => hbad.elim hsize hkind)
      (by rw [edgecoreRequestAlloc, if_pos hbad])
  rcases hfree : findFreeSlot core with _ | i
  · exact hrefused (fun ⟨_, _, hslot⟩ => hslot hfree)
      (by rw [edgecoreRequestAlloc, if_neg hbad, hfree])
  have hmint : (CoreOp.requestAlloc kind size).Mints core :=
    ⟨fun h => hbad (.inl h), fun h => hbad (.inr h), by simp [hfree]⟩
  obtain ⟨old, hold, hst⟩ := findFreeSlot_some hfree
  have hid := mintAllocId_ne_zero core
  have hevents : (setBuf (mintAllocId core).1 i (askedSlot core kind size)).events = core.events := rfl
  have hrun : edgecoreRequestAlloc core kind size
      = if (emitEvent (setBuf (mintAllocId core).1 i (askedSlot core kind size))
            (needAllocEvent (mintAllocId core).2 kind size)).2 ≠ 0 then
          (setBuf (emitEvent (setBuf (mintAllocId core).1 i (askedSlot core kind size))
            (needAllocEvent (mintAllocId core).2 kind size)).1 i {}, 0)
        else ((emitEvent (setBuf (mintAllocId core).1 i (askedSlot core kind size))
            (needAllocEvent (mintAllocId core).2 kind size)).1, (mintAllocId core).2) := by
    rw [edgecoreRequestAlloc, if_neg hbad, hfree]
    rfl
  rcases emitEvent_cases (setBuf (mintAllocId core).1 i (askedSlot core kind size))
    (needAllocEvent (mintAllocId core).2 kind size) with ⟨hroom, heq⟩ | ⟨hfull, heq⟩
  · rw [heq, if_neg (fun h => h rfl)] at hrun
    rw [CoreOp.act, hrun]
    dsimp only
    rw [if_neg hid]
    have hroom : core.events.cnt < core.events.cap := hroom
    exact .asked hmint hroom i old kind size hold hst rfl rfl (hring.contents_pushBack hroom _)
  · rw [heq, if_pos (by simp)] at hrun
    rw [CoreOp.act, hrun]
    have hfull : core.events.cap ≤ core.events.cnt := hfull
    exact .dropped hmint hfull i old hold hst (List.set_set ..) rfl (noNewNeed_lost hring hfull rfl)

theorem edgecoreRequestRealloc_bufEffect {core : Edgecore} (hring : core.events.WF)
    (allocId : UInt32) (newSize : ℕ) : BufEffect core (edgecoreRequestRealloc core allocId newSize).1
      ((CoreOp.requestRealloc allocId newSize).Mints core)
      ((CoreOp.requestRealloc allocId newSize).act core) := by
  have hrefused : edgecoreRequestRealloc core allocId newSize = (core, -1) →
      BufEffect core (edgecoreRequestRealloc core allocId newSize).1
        ((CoreOp.requestRealloc allocId newSize).Mints core)
        ((CoreOp.requestRealloc allocId newSize).act core) := by
    intro heq
    rw [CoreOp.act, heq]
    exact .same id rfl rfl (noNewNeed_refl core)
  by_cases hbad : allocId = 0 ∨ newSize = 0
  · exact hrefused (by rw [edgecoreRequestRealloc, if_pos hbad])
  rcases hfind : findSlotById core allocId with _ | i
  · exact hrefused (by rw [edgecoreRequestRealloc, if_neg hbad, hfind])
  obtain ⟨slot, hslot, -, rfl⟩ := findSlotById_some hfind
  by_cases hst : slot.state ≠ .ready
  · exact hrefused (by simp only [edgecoreRequestRealloc, if_neg hbad, hfind, hslot, if_pos hst])
  have hready : slot.state = .ready := by simpa using hst
  have hrun : edgecoreRequestRealloc core slot.allocId newSize
      = if (emitEvent (setBuf core i { slot with state := .pending, requested := newSize })
            (needReallocEvent slot.allocId slot newSize)).2 ≠ 0 then
          (setBuf (emitEvent (setBuf core i { slot with state := .pending, requested := newSize })
            (needReallocEvent slot.allocId slot newSize)).1 i
              { slot with state := .ready, requested := slot.size }, -1)
        else ((emitEvent (setBuf core i { slot with state := .pending, requested := newSize })
            (needReallocEvent slot.allocId slot newSize)).1, 0) := by
    simp only [edgecoreRequestRealloc, if_neg hbad, hfind, hslot, if_neg hst]
  rcases emitEvent_cases (setBuf core i { slot with state := .pending, requested := newSize })
    (needReallocEvent slot.allocId slot newSize) with ⟨hroom, heq⟩ | ⟨hfull, heq⟩
  · rw [heq, if_neg (fun h => h rfl)] at hrun
    rw [CoreOp.act, hrun]
    exact .grown id i slot newSize hfind hslot hready rfl rfl (hring.contents_pushBack hroom _)
  · rw [heq, if_pos (by simp)] at hrun
    rw [CoreOp.act, hrun]
    exact .kept id i slot hslot hready (List.set_set ..) rfl (noNewNeed_lost hring hfull rfl)

theorem edgecoreProvideBuffer_bufEffect (core : Edgecore) (allocId : UInt32) (ptr : Ptr)
    (size : ℕ) : BufEffect core (edgecoreProvideBuffer core allocId ptr size).1
      ((CoreOp.provideBuffer allocId ptr size).Mints core)
      ((CoreOp.provideBuffer allocId ptr size).act core) := by
  have hrefused : edgecoreProvideBuffer core allocId ptr size = (core, -1) →
      BufEffect core (edgecoreProvideBuffer core allocId ptr size).1
        ((CoreOp.provideBuffer allocId ptr size).Mints core)
        ((CoreOp.provideBuffer allocId ptr size).act core) := by
    intro heq
    rw [CoreOp.act, heq]
    exact .same id rfl rfl (noNewNeed_refl core)
  by_cases hbad : allocId = 0 ∨ ptr = 0 ∨ size = 0
  · exact hrefused (by rw [edgecoreProvideBuffer, if_pos hbad])
  rcases hfind : findSlotById core allocId with _ | i
  · exact hrefused (by rw [edgecoreProvideBuffer, if_neg hbad, hfind])
  obtain ⟨slot, hslot, -, rfl⟩ := findSlotById_some hfind
  by_cases hst : slot.state ≠ .pending
  · exact hrefused (by simp only [edgecoreProvideBuffer, if_neg hbad, hfind, hslot, if_pos hst])
  by_cases hsize : size < slot.requested
  · exact hrefused (by
      simp only [edgecoreProvideBuffer, if_neg hbad, hfind, hslot, if_neg hst, if_pos hsize])
  have hrun : edgecoreProvideBuffer core slot.allocId ptr size
      = (setBuf core i { slot with ptr, size, state := .ready }, 0) := by
    simp only [edgecoreProvideBuffer, if_neg hbad, hfind, hslot, if_neg hst, if_neg hsize]
  rw [CoreOp.act, hrun]
  exact .provided id i slot ptr size hfind hslot (by simpa using hst) (fun h => hbad (.inr (.inl h)))
    (Nat.le_of_not_lt hsize) rfl rfl rfl

theorem edgecoreDetachBuffer_bufEffect (core : Edgecore) (allocId : UInt32) :
    BufEffect core (edgecoreDetachBuffer core allocId).1
      ((CoreOp.detachBuffer allocId).Mints core) ((CoreOp.detachBuffer allocId).act core) := by
  have hrefused : edgecoreDetachBuffer core allocId = (core, none) →
      BufEffect core (edgecoreDetachBuffer core allocId).1
        ((CoreOp.detachBuffer allocId).Mints core) ((CoreOp.detachBuffer allocId).act core) := by
    intro heq
    rw [CoreOp.act, heq]
    exact .same id rfl rfl (noNewNeed_refl core)
  by_cases hbad : allocId = 0
  · exact hrefused (by rw [edgecoreDetachBuffer, if_pos hbad])
  rcases hfind : findSlotById core allocId with _ | i
  · exact hrefused (by rw [edgecoreDetachBuffer, if_neg hbad, hfind])
  obtain ⟨slot, hslot, -, rfl⟩ := findSlotById_some hfind
  have hrun : edgecoreDetachBuffer core slot.allocId
      = (setBuf core i {}, some (slot.ptr, slot.size)) := by
    simp only [edgecoreDetachBuffer, if_neg hbad, hfind, hslot]
  rw [CoreOp.act, hrun]
  exact .detached id i slot hfind hslot rfl rfl rfl

theorem edgecoreNextEvent_bufEffect {core : Edgecore} (hring : core.events.WF) :
    BufEffect core (edgecoreNextEvent core).1 False none := by
  unfold edgecoreNextEvent
  by_cases hempty : core.events.cnt = 0
  · rw [if_pos hempty]
    exact .same id rfl rfl (noNewNeed_refl core)
  · rw [if_neg hempty]
    refine .same id rfl rfl fun ev hmem _ => ?_
    rw [hring.contents_dropFront (Nat.pos_of_ne_zero hempty)] at hmem
    exact List.mem_of_mem_tail hmem

/-- A report changes no buffer. -/
private theorem emitEvent_bufEffect {core core₀ : Edgecore} (hring : core.events.WF)
    (hevents : core₀.events = core.events) (hbufs : core₀.bufs = core.bufs)
    (hnext : core₀.nextAllocId = core.nextAllocId) {ev : EdgeEvent} (hev : ¬ ev.isNeed) :
    BufEffect core (emitEvent core₀ ev).1 False none := by
  obtain ⟨hb, hn⟩ := emitEvent_bufs core₀ ev
  exact .same id (hb.trans hbufs) (hn.trans hnext) (noNewNeed_report hring hevents hev)

/-- **Every operation has one of these effects.** -/
theorem CoreOp.apply_bufEffect {core : Edgecore} (hring : core.events.WF) (op : CoreOp) :
    BufEffect core (op.apply core).1 (op.Mints core) (op.act core) := by
  cases op with
  | requestAlloc kind size => exact edgecoreRequestAlloc_bufEffect hring kind size
  | requestRealloc allocId newSize => exact edgecoreRequestRealloc_bufEffect hring allocId newSize
  | provideBuffer allocId ptr size => exact edgecoreProvideBuffer_bufEffect core allocId ptr size
  | detachBuffer allocId => exact edgecoreDetachBuffer_bufEffect core allocId
  | applyConfig cfg =>
    rcases cfg with _ | cfg
    · exact .same id rfl rfl (noNewNeed_refl core)
    · simp only [CoreOp.apply, CoreOp.act, edgecoreApplyConfig]
      rcases edgeConfigValidate (some cfg) 96 with verr | u
      · refine emitEvent_bufEffect hring rfl rfl rfl ?_
        rintro (h | h) <;> cases h
      · refine emitEvent_bufEffect hring ?_ ?_ ?_ ?_
        · rfl
        · rfl
        · rfl
        · rintro (h | h) <;> cases h
  | notifyConfigRejected reason =>
    refine emitEvent_bufEffect hring rfl rfl rfl ?_
    rintro (h | h) <;> cases h
  | nextEvent => exact edgecoreNextEvent_bufEffect hring

/-! ## Requests in the ring -/

/-- One operation on a core. -/
def coreStep (core : Edgecore) (op : CoreOp) : Edgecore := (op.apply core).1

/-- A slot waits for just what the event asks for, and its registered buffer is the one the event
names. -/
def Names (core : Edgecore) (ev : EdgeEvent) : Prop :=
  ∃ slot ∈ core.bufs, slot.state = .pending ∧ slot.allocId = ev.allocId ∧ slot.requested = ev.size ∧
    (ev.type = .needRealloc → ev.oldPtr = slot.ptr ∧ ev.oldSize = slot.size)

/-- The request that `edgecore_next_event` returns, if it returns one, names such a slot. -/
def PullsHonest (core : Edgecore) : Prop :=
  ∀ ev, (edgecoreNextEvent core).2 = some ev → ev.isNeed → Names core ev

/-- Every request in the ring names such a slot. -/
structure QueueHonest (core : Edgecore) : Prop where
  ring : core.events.WF
  named : ∀ ev ∈ core.events.contents, ev.isNeed → Names core ev

/-- No request for this id is queued. -/
def Unasked (core : Edgecore) (allocId : UInt32) : Prop :=
  ∀ ev ∈ core.events.contents, ev.isNeed → ev.allocId ≠ allocId

instance (core : Edgecore) (allocId : UInt32) : Decidable (Unasked core allocId) :=
  inferInstanceAs (Decidable (∀ ev ∈ _, _))

/-- The operation does not settle a buffer whose request is still queued: neither a provide that is
accepted nor a detach has its request in the ring. -/
def SettlesPulled (core : Edgecore) : CoreOp → Prop
  | .provideBuffer allocId ptr size => ptr ≠ 0 → ∀ i slot, findSlotById core allocId = some i →
      core.bufs[i]? = some slot → slot.state = .pending → slot.requested ≤ size →
      Unasked core allocId
  | .detachBuffer allocId => Unasked core allocId
  | _ => True

theorem QueueHonest.pullsHonest {core : Edgecore} (h : QueueHonest core) : PullsHonest core := by
  intro ev hev hneed
  unfold edgecoreNextEvent at hev
  by_cases hempty : core.events.cnt = 0
  · rw [if_pos hempty] at hev
    cases hev
  · rw [if_neg hempty] at hev
    refine h.named ev ?_ hneed
    have hhead := h.ring.head?_contents (Nat.pos_of_ne_zero hempty)
    exact List.mem_of_mem_head? (hhead.trans hev)

/-- Writing a slot that was not PENDING keeps the slots that the requests name. -/
theorem Names.set {core core' : Edgecore} {ev : EdgeEvent} (h : Names core ev) {i : ℕ}
    {old slot : EdgeBufSlot} (hold : core.bufs[i]? = some old)
    (hbufs : core'.bufs = core.bufs.set i slot)
    (hother : old.state = .pending → old.allocId ≠ ev.allocId) : Names core' ev := by
  obtain ⟨x, hx, hpending, hid, hrest⟩ := h
  obtain ⟨j, hj⟩ := List.mem_iff_getElem?.mp hx
  have hne : i ≠ j := by
    rintro rfl
    obtain rfl := Option.some.inj (hold.symm.trans hj)
    exact hother hpending hid
  refine ⟨x, List.mem_iff_getElem?.mpr ⟨j, ?_⟩, hpending, hid, hrest⟩
  rw [hbufs, List.getElem?_set_ne hne, hj]

/-- A settled buffer had no request in the ring. -/
theorem SettlesPulled.unasked {core : Edgecore} {op : CoreOp} (hok : SettlesPulled core op) {i : ℕ}
    {slot : EdgeBufSlot} (hfind : findSlotById core slot.allocId = some i)
    (hslot : core.bufs[i]? = some slot) {ptr : Ptr} {size : ℕ}
    (hact : (op.act core = some (slot.allocId, .provided ptr size) ∧ slot.state = .pending ∧
        ptr ≠ 0 ∧ slot.requested ≤ size) ∨
      op.act core = some (slot.allocId, .detached ptr size)) : Unasked core slot.allocId := by
  cases op with
  | provideBuffer allocId p n =>
    rw [CoreOp.act] at hact
    split at hact
    · obtain ⟨heq, hpending, hptr, hsize⟩ | heq := hact
      · cases heq
        exact hok hptr i slot hfind hslot hpending hsize
      · cases heq
    · rcases hact with ⟨heq, -⟩ | heq <;> cases heq
  | detachBuffer allocId =>
    rw [CoreOp.act] at hact
    obtain ⟨heq, -⟩ | heq := hact
    · obtain ⟨r, -, hr⟩ := Option.map_eq_some_iff.mp heq
      cases hr
    · obtain ⟨r, -, hr⟩ := Option.map_eq_some_iff.mp heq
      cases hr
      exact hok
  | requestAlloc kind n =>
    simp only [CoreOp.act] at hact
    split at hact
    · rcases hact with ⟨heq, -⟩ | heq <;> cases heq
    · obtain ⟨heq, -⟩ | heq := hact <;> cases (Prod.mk.inj (Option.some.inj heq)).2
  | requestRealloc allocId n =>
    rw [CoreOp.act] at hact
    split at hact <;> rcases hact with ⟨heq, -⟩ | heq <;> cases heq
  | applyConfig cfg => rcases hact with ⟨heq, -⟩ | heq <;> cases heq
  | notifyConfigRejected reason => rcases hact with ⟨heq, -⟩ | heq <;> cases heq
  | nextEvent => rcases hact with ⟨heq, -⟩ | heq <;> cases heq

/-- **One step** keeps the requests in the ring honest, unless it settles a buffer whose request is
still there. -/
theorem QueueHonest.step {core : Edgecore} (h : QueueHonest core) {op : CoreOp}
    (hok : SettlesPulled core op) : QueueHonest (coreStep core op) := by
  have hring : (coreStep core op).events.WF := (op.apply_effect core).ringOk h.ring
  refine ⟨hring, fun ev hmem hneed => ?_⟩
  have hunasked := fun i slot => @SettlesPulled.unasked core op hok i slot
  have heff := op.apply_bufEffect h.ring
  generalize op.act core = act at heff hunasked
  rw [coreStep] at hmem ⊢
  cases heff with
  | same hno hbufs hnext hev =>
    obtain ⟨slot, hslot, hrest⟩ := h.named ev (hev ev hmem hneed) hneed
    exact ⟨slot, hbufs ▸ hslot, hrest⟩
  | asked hmint hroom i old kind size hold hfree hbufs hnext hev =>
    rw [hev] at hmem
    rcases List.mem_append.mp hmem with hmem | hmem
    · exact (h.named ev hmem hneed).set hold hbufs fun hp => by rw [hfree] at hp; cases hp
    · rw [List.mem_singleton.mp hmem]
      refine ⟨askedSlot core kind size, ?_, rfl, rfl, rfl, fun ht => nomatch ht⟩
      rw [hbufs]
      exact List.mem_set (List.getElem?_eq_some_iff.mp hold).1 _
  | dropped hmint hfull i old hold hfree hbufs hnext hev =>
    exact (h.named ev (hev ev hmem hneed) hneed).set hold hbufs fun hp => by
      rw [hfree] at hp
      cases hp
  | grown hno i slot size hfind hslot hready hbufs hnext hev =>
    rw [hev] at hmem
    rcases List.mem_append.mp hmem with hmem | hmem
    · exact (h.named ev hmem hneed).set hslot hbufs fun hp => by rw [hready] at hp; cases hp
    · rw [List.mem_singleton.mp hmem]
      refine ⟨{ slot with state := .pending, requested := size }, ?_, rfl, rfl, rfl,
        fun _ => ⟨rfl, rfl⟩⟩
      rw [hbufs]
      exact List.mem_set (List.getElem?_eq_some_iff.mp hslot).1 _
  | kept hno i slot hslot hready hbufs hnext hev =>
    exact (h.named ev (hev ev hmem hneed) hneed).set hslot hbufs fun hp => by
      rw [hready] at hp
      cases hp
  -- No request for this buffer is still queued: that is the condition on the run.
  | provided hno i slot ptr size hfind hslot hpending hptr hsize hbufs hnext hev =>
    rw [hev] at hmem
    have hno := hunasked i slot hfind hslot (.inl ⟨rfl, hpending, hptr, hsize⟩)
    exact (h.named ev hmem hneed).set hslot hbufs fun _ => (hno ev hmem hneed).symm
  | detached hno i slot hfind hslot hbufs hnext hev =>
    rw [hev] at hmem
    have hno := hunasked i slot hfind hslot (.inr rfl)
    exact (h.named ev hmem hneed).set hslot hbufs fun _ => (hno ev hmem hneed).symm

theorem queueHonest_create (eventQueueSize : ℕ) :
    QueueHonest (edgecoreCreateWithConfig eventQueueSize) where
  ring := CoreHistory.create_ringOk eventQueueSize
  named _ hmem _ := absurd hmem List.not_mem_nil

/-- **The requests that the host pulls are honest** in every state of a run that settles no buffer
while its request is still queued. -/
theorem always_pullsHonest (eventQueueSize : ℕ) (ops : List CoreOp)
    (hok : EachStep coreStep SettlesPulled (edgecoreCreateWithConfig eventQueueSize) ops) :
    Always coreStep PullsHonest (edgecoreCreateWithConfig eventQueueSize) ops :=
  (hok.always (fun _ _ h hok => h.step hok) (queueHonest_create eventQueueSize)).mono
    fun _ h => h.pullsHonest

/-- A buffer is grown, and the host answers the request that it pulls. -/
def grownRun : List CoreOp :=
  [.requestAlloc .generic 64, .nextEvent, .provideBuffer 1 4096 64, .requestRealloc 1 128, .nextEvent,
    .provideBuffer 1 8192 128, .detachBuffer 1]

theorem always_pullsHonest_grownRun :
    Always coreStep PullsHonest (edgecoreCreateWithConfig 4) grownRun := by
  refine always_pullsHonest 4 grownRun ⟨trivial, trivial, fun _ _ _ _ _ _ _ => ?_, trivial, trivial,
    fun _ _ _ _ _ _ _ => ?_, ?_, trivial⟩
  · decide +kernel
  · decide +kernel
  · show Unasked _ 1
    decide +kernel

/-- A buffer is grown and detached while the request is still queued. -/
def detachedRun : List CoreOp :=
  [.requestAlloc .generic 64, .nextEvent, .provideBuffer 1 4096 64, .requestRealloc 1 128,
    .detachBuffer 1]

/-- The buffer that the request of `detachedRun` names. -/
def detachedSlot : EdgeBufSlot where
  state := .ready
  kind := .generic
  allocId := 1
  ptr := 4096
  size := 64
  requested := 64

theorem not_always_pullsHonest_detachedRun :
    ¬ Always coreStep PullsHonest (edgecoreCreateWithConfig 4) detachedRun := by
  intro h
  have hpull : (edgecoreNextEvent (runFrom coreStep (edgecoreCreateWithConfig 4) detachedRun)).2
      = some (needReallocEvent 1 detachedSlot 128) := by
    decide +kernel
  obtain ⟨slot, hslot, hpending, -⟩ := h.last _ hpull (.inr rfl)
  have hnone : ∀ slot ∈ (runFrom coreStep (edgecoreCreateWithConfig 4) detachedRun).bufs,
      slot.state ≠ .pending := by
    decide +kernel
  exact hnone slot hslot hpending

end Edgehost
