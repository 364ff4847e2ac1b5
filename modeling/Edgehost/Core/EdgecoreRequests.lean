import Edgehost.Common.Runs
import Edgehost.Core.Edgecore
import Mathlib.Logic.Function.Basic

/-!
# Memory requests and their events

A buffer slot that is PENDING waits for the host, which learns of it only through the `NEED_ALLOC` or
`NEED_REALLOC` event of the request. `CoreHistory` follows one core together with the events the host
has pulled, and remembers for each slot where in the stream of events its request stands; `Told` says
that each PENDING slot still has its event there.

* `CoreOp.apply_effect` says everything an operation can do to the ring and to the PENDING slots.
* `always_told_iff` says which runs keep `Told`: those in which no event is emitted on a full ring
  while the oldest event is the request of a slot that is still PENDING.
-/

namespace Edgehost

/-- The operations of a core on its ring, its buffers and its configuration. -/
inductive CoreOp
  | requestAlloc (kind : EdgeBufKind) (size : ℕ)
  | requestRealloc (allocId : UInt32) (newSize : ℕ)
  | provideBuffer (allocId : UInt32) (ptr : Ptr) (size : ℕ)
  | detachBuffer (allocId : UInt32)
  | applyConfig (cfg : Option EdgeConfig)
  | notifyConfigRejected (reason : Option Bytes)
  | nextEvent

/-- Run one operation: the new core, and the event handed to the host. -/
def CoreOp.apply (core : Edgecore) : CoreOp → Edgecore × Option EdgeEvent
  | .requestAlloc kind size => ((edgecoreRequestAlloc core kind size).1, none)
  | .requestRealloc allocId newSize => ((edgecoreRequestRealloc core allocId newSize).1, none)
  | .provideBuffer allocId ptr size => ((edgecoreProvideBuffer core allocId ptr size).1, none)
  | .detachBuffer allocId => ((edgecoreDetachBuffer core allocId).1, none)
  | .applyConfig cfg => ((edgecoreApplyConfig core cfg).1, none)
  | .notifyConfigRejected reason => ((edgecoreNotifyConfigRejected core reason).1, none)
  | .nextEvent => edgecoreNextEvent core

/-- The operation gets as far as emitting an event. -/
def CoreOp.Emits (core : Edgecore) : CoreOp → Prop
  | .requestAlloc kind size => size ≠ 0 ∧ kind ≠ .none ∧ findFreeSlot core ≠ none
  | .requestRealloc allocId newSize => newSize ≠ 0 ∧
      ∃ i slot, findSlotById core allocId = some i ∧ core.bufs[i]? = some slot ∧ slot.state = .ready
  | .applyConfig cfg => cfg ≠ none
  | .notifyConfigRejected _ => True
  | _ => False

/-- The slot at `i`, when it is PENDING. -/
def pendingSlot (core : Edgecore) (i : ℕ) : Option EdgeBufSlot :=
  core.bufs[i]?.filter fun slot => slot.state = .pending

/-- The event asks the host for what the slot waits for. -/
def EdgeEvent.AsksFor (ev : EdgeEvent) (slot : EdgeBufSlot) : Prop :=
  (ev.type = .needAlloc ∨ ev.type = .needRealloc) ∧ ev.allocId = slot.allocId ∧
    ev.bufKind = slot.kind ∧ ev.size = slot.requested

/-- A core, the events the host has pulled from it, and for each slot the place of its last request
in the stream of events. -/
structure CoreHistory where
  core : Edgecore
  delivered : List EdgeEvent
  asked : ℕ → ℕ

namespace CoreHistory

/-- All events, pulled or queued, oldest first. -/
def stream (h : CoreHistory) : List EdgeEvent := h.delivered ++ h.core.events.contents

/-- Record one operation. A slot that turns PENDING has its request at the end of the stream as it
stood before. -/
def record (h : CoreHistory) (core' : Edgecore) (ev : Option EdgeEvent) : CoreHistory where
  core := core'
  delivered := h.delivered ++ ev.toList
  asked i :=
    if pendingSlot h.core i = none ∧ pendingSlot core' i ≠ none then h.stream.length
    else h.asked i

/-- Run one operation and record it. -/
def step (h : CoreHistory) (op : CoreOp) : CoreHistory :=
  h.record (op.apply h.core).1 (op.apply h.core).2

/-- The history of a new core. -/
def create (eventQueueSize : ℕ) : CoreHistory where
  core := edgecoreCreateWithConfig eventQueueSize
  delivered := []
  asked := fun _ => 0

/-- Every PENDING slot has its request in the ring or with the host. -/
def Told (h : CoreHistory) : Prop :=
  ∀ i slot, pendingSlot h.core i = some slot →
    ∃ ev, h.stream[h.asked i]? = some ev ∧ ev.AsksFor slot

/-- The operation does not overwrite the request of a slot that is still PENDING: when it emits on a
full ring, the oldest event is no such request. -/
def Spares (h : CoreHistory) (op : CoreOp) : Prop :=
  op.Emits h.core → h.core.events.cnt = h.core.events.cap →
    ∀ i, pendingSlot h.core i ≠ none → h.asked i ≠ h.delivered.length

end CoreHistory

/-! ## What an operation does -/

theorem pendingSlot_eq_some {core : Edgecore} {i : ℕ} {slot : EdgeBufSlot} :
    pendingSlot core i = some slot ↔ core.bufs[i]? = some slot ∧ slot.state = .pending := by
  simp [pendingSlot, Option.filter_eq_some_iff]

theorem pendingSlot_of_not_pending {core : Edgecore} {i : ℕ} {slot : EdgeBufSlot}
    (hslot : core.bufs[i]? = some slot) (hst : slot.state ≠ .pending) :
    pendingSlot core i = none := by
  simp [pendingSlot, hslot, hst]

theorem pendingSlot_congr {core core' : Edgecore} (h : core'.bufs = core.bufs) :
    pendingSlot core' = pendingSlot core := by
  funext i
  simp only [pendingSlot, h]

/-- Writing a slot decides whether it is PENDING; the other slots stay. -/
theorem pendingSlot_set {core core' : Edgecore} {i : ℕ} {slot : EdgeBufSlot}
    (hi : i < core.bufs.length) (h : core'.bufs = core.bufs.set i slot) :
    pendingSlot core' = Function.update (pendingSlot core) i
      (if slot.state = .pending then some slot else none) := by
  funext j
  by_cases hj : j = i
  · subst hj
    simp [pendingSlot, h, hi, Option.filter]
  · rw [Function.update_of_ne hj]
    simp only [pendingSlot, h, List.getElem?_set_ne (Ne.symm hj)]

theorem pendingSlot_set_pending {core core' : Edgecore} {i : ℕ} {slot : EdgeBufSlot}
    (hi : i < core.bufs.length) (h : core'.bufs = core.bufs.set i slot) (hst : slot.state = .pending) :
    pendingSlot core' = Function.update (pendingSlot core) i (some slot) := by
  rw [pendingSlot_set hi h, if_pos hst]

/-- Clearing or filling a slot that is not PENDING, with one that is not, changes nothing. -/
theorem pendingSlot_set_same {core core' : Edgecore} {i : ℕ} {slot : EdgeBufSlot}
    (hi : i < core.bufs.length) (h : core'.bufs = core.bufs.set i slot)
    (hold : pendingSlot core i = none) (hst : slot.state ≠ .pending) :
    pendingSlot core' = pendingSlot core := by
  rw [pendingSlot_set hi h, if_neg hst, ← hold, Function.update_eq_self]

/-- What one operation may do to the ring, to the PENDING slots and to the host. `emits` says whether
it emits an event. -/
inductive CoreEffect (core core' : Edgecore) (emits : Prop) : Option EdgeEvent → Prop
  /-- Nothing reaches the ring, and no slot turns PENDING. -/
  | quiet (hno : ¬emits) (hev : core'.events = core.events)
      (hslots : ∀ i, pendingSlot core' i = pendingSlot core i ∨ pendingSlot core' i = none) :
      CoreEffect core core' emits none
  /-- The host pulls the oldest event. -/
  | pulled (hno : ¬emits) (hne : 0 < core.events.cnt) (hev : core'.events = core.events.dropFront)
      (hslots : pendingSlot core' = pendingSlot core) :
      CoreEffect core core' emits core.events.slots[core.events.head]?
  /-- A report is queued. -/
  | reported (hemits : emits) (ev : EdgeEvent) (hroom : core.events.cnt < core.events.cap)
      (hev : core'.events = core.events.pushBack ev) (hslots : pendingSlot core' = pendingSlot core) :
      CoreEffect core core' emits none
  /-- A slot turns PENDING and its request is queued. -/
  | requested (hemits : emits) (ev : EdgeEvent) (i : ℕ) (slot : EdgeBufSlot)
      (hroom : core.events.cnt < core.events.cap) (hev : core'.events = core.events.pushBack ev)
      (hi : pendingSlot core i = none)
      (hslots : pendingSlot core' = Function.update (pendingSlot core) i (some slot))
      (hasks : ev.AsksFor slot) : CoreEffect core core' emits none
  /-- The ring is full: the oldest event is overwritten and the PENDING slots stay. -/
  | lost (hemits : emits) (hfull : core.events.cap ≤ core.events.cnt)
      (hev : core'.events = core.events.setFront overflowEvent)
      (hslots : pendingSlot core' = pendingSlot core) : CoreEffect core core' emits none

/-- A step that touches neither the ring nor the buffers. -/
theorem CoreEffect.same {core : Edgecore} {emits : Prop} (hno : ¬emits) :
    CoreEffect core core emits none :=
  .quiet hno rfl fun _ => .inl rfl

/-- The two outcomes of `emit_event`. -/
theorem emitEvent_cases (core : Edgecore) (ev : EdgeEvent) :
    (core.events.cnt < core.events.cap ∧
      emitEvent core ev = ({ core with events := core.events.pushBack ev }, 0)) ∨
    (core.events.cap ≤ core.events.cnt ∧ emitEvent core ev =
      ({ core with events := core.events.setFront overflowEvent,
                   dropped := core.dropped + 1 }, -1)) := by
  by_cases hfull : core.events.cnt ≥ core.events.cap
  · exact .inr ⟨hfull, by simp [emitEvent, hfull]⟩
  · exact .inl ⟨by omega, by simp [emitEvent, hfull]⟩

/-- An emit beside an unchanged buffer table is a report, or is lost. -/
theorem emitEvent_effect {core core₀ : Edgecore} {emits : Prop} (hemits : emits)
    (hring : core₀.events = core.events) (hbufs : core₀.bufs = core.bufs) (ev : EdgeEvent) :
    CoreEffect core (emitEvent core₀ ev).1 emits none := by
  rcases emitEvent_cases core₀ ev with ⟨hroom, heq⟩ | ⟨hfull, heq⟩
  · rw [heq]
    exact .reported hemits ev (hring ▸ hroom) (by simp [hring]) (pendingSlot_congr hbufs)
  · rw [heq]
    exact .lost hemits (hring ▸ hfull) (by simp [hring]) (pendingSlot_congr hbufs)

theorem findFreeSlot_some {core : Edgecore} {i : ℕ} (h : findFreeSlot core = some i) :
    ∃ slot, core.bufs[i]? = some slot ∧ slot.state = .free := by
  obtain ⟨slot, hslot, hlive⟩ := firstFree_eq_some h
  exact ⟨slot, hslot, by simpa [bufsById] using hlive⟩

theorem findSlotById_some {core : Edgecore} {allocId : UInt32} {i : ℕ}
    (h : findSlotById core allocId = some i) :
    ∃ slot, core.bufs[i]? = some slot ∧ slot.state ≠ .free ∧ slot.allocId = allocId := by
  unfold findSlotById at h
  split_ifs at h with hzero
  obtain ⟨slot, hslot, hlive, hkey⟩ := bufsById.find_eq_some h
  exact ⟨slot, hslot, by simpa [bufsById] using hlive, hkey⟩

theorem findSlotById_zero (core : Edgecore) : findSlotById core 0 = none := by
  simp [findSlotById]

theorem edgecoreRequestAlloc_effect (core : Edgecore) (kind : EdgeBufKind) (size : ℕ) :
    CoreEffect core (edgecoreRequestAlloc core kind size).1
      ((CoreOp.requestAlloc kind size).Emits core) none := by
  unfold edgecoreRequestAlloc
  split_ifs with hbad
  · exact .same fun ⟨hsize, hkind, _⟩ => hbad.elim hsize hkind
  cases hfree : findFreeSlot core with
  | none => exact .same fun ⟨_, _, hslot⟩ => hslot hfree
  | some i =>
    have hemits : (CoreOp.requestAlloc kind size).Emits core :=
      ⟨fun h => hbad (.inl h), fun h => hbad (.inr h), by simp [hfree]⟩
    obtain ⟨old, hold, hst⟩ := findFreeSlot_some hfree
    have hi : i < core.bufs.length := (List.getElem?_eq_some_iff.mp hold).1
    have hnone : pendingSlot core i = none := pendingSlot_of_not_pending hold (by simp [hst])
    obtain ⟨next, id, hmint⟩ :
        ∃ next id, mintAllocId core = ({ core with nextAllocId := next }, id) := ⟨_, _, rfl⟩
    simp only [hmint]
    rcases emitEvent_cases (setBuf { core with nextAllocId := next } i
      { state := .pending, kind, allocId := id, requested := size }) (needAllocEvent id kind size)
      with ⟨hroom, heq⟩ | ⟨hfull, heq⟩
    · rw [heq, if_neg (fun h => h rfl)]
      exact .requested hemits (needAllocEvent id kind size) i
        { state := .pending, kind, allocId := id, requested := size } hroom rfl hnone
        (pendingSlot_set_pending hi rfl rfl) ⟨.inl rfl, rfl, rfl, rfl⟩
    · rw [heq, if_pos (by simp)]
      exact .lost hemits hfull rfl (pendingSlot_set_same hi (List.set_set ..) hnone (by simp))

theorem edgecoreRequestRealloc_effect (core : Edgecore) (allocId : UInt32) (newSize : ℕ) :
    CoreEffect core (edgecoreRequestRealloc core allocId newSize).1
      ((CoreOp.requestRealloc allocId newSize).Emits core) none := by
  unfold edgecoreRequestRealloc
  split_ifs with hbad
  · refine .same fun ⟨hsize, i, slot, hfind, _⟩ => ?_
    rcases hbad with rfl | hzero
    · simp [findSlotById_zero] at hfind
    · exact hsize hzero
  cases hfind : findSlotById core allocId with
  | none =>
    refine .same fun ⟨_, i, slot, hfind', _⟩ => ?_
    simp [hfind] at hfind'
  | some i =>
    obtain ⟨slot, hslot, -, hid⟩ := findSlotById_some hfind
    have hi : i < core.bufs.length := (List.getElem?_eq_some_iff.mp hslot).1
    simp only [hslot]
    by_cases hst : slot.state ≠ .ready
    · rw [if_pos hst]
      refine .same fun ⟨_, j, slot', hfind', hslot', hready⟩ => ?_
      obtain rfl : i = j := Option.some.inj (hfind.symm.trans hfind')
      obtain rfl : slot = slot' := Option.some.inj (hslot.symm.trans hslot')
      exact hst hready
    · rw [if_neg hst]
      have hready : slot.state = .ready := by simpa using hst
      have hemits : (CoreOp.requestRealloc allocId newSize).Emits core :=
        ⟨fun h => hbad (.inr h), i, slot, hfind, hslot, hready⟩
      have hnone : pendingSlot core i = none := pendingSlot_of_not_pending hslot (by simp [hready])
      rcases emitEvent_cases (setBuf core i { slot with state := .pending, requested := newSize })
        (needReallocEvent allocId slot newSize) with ⟨hroom, heq⟩ | ⟨hfull, heq⟩
      · rw [heq, if_neg (fun h => h rfl)]
        exact .requested hemits (needReallocEvent allocId slot newSize) i
          { slot with state := .pending, requested := newSize } hroom rfl hnone
          (pendingSlot_set_pending hi rfl rfl) ⟨.inr rfl, hid.symm, rfl, rfl⟩
      · rw [heq, if_pos (by simp)]
        exact .lost hemits hfull rfl (pendingSlot_set_same hi (List.set_set ..) hnone (by simp))

/-- Writing a slot that is not PENDING afterwards reaches neither the ring nor the host. -/
theorem setBuf_effect {core : Edgecore} {emits : Prop} (hno : ¬emits) {i : ℕ}
    (hi : i < core.bufs.length) {slot : EdgeBufSlot} (hst : slot.state ≠ .pending) :
    CoreEffect core (setBuf core i slot) emits none := by
  refine .quiet hno rfl fun j => ?_
  rw [pendingSlot_set hi rfl, if_neg hst]
  by_cases hj : j = i
  · subst hj
    exact .inr (Function.update_self ..)
  · exact .inl (Function.update_of_ne hj ..)

theorem edgecoreProvideBuffer_effect (core : Edgecore) (allocId : UInt32) (ptr : Ptr) (size : ℕ) :
    CoreEffect core (edgecoreProvideBuffer core allocId ptr size).1 False none := by
  unfold edgecoreProvideBuffer
  split_ifs with hbad
  · exact .same id
  cases hfind : findSlotById core allocId with
  | none => exact .same id
  | some i =>
    obtain ⟨slot, hslot, -, -⟩ := findSlotById_some hfind
    simp only [hslot]
    split_ifs with hst hsize
    · exact .same id
    · exact .same id
    · exact setBuf_effect id (List.getElem?_eq_some_iff.mp hslot).1 (by simp)

theorem edgecoreDetachBuffer_effect (core : Edgecore) (allocId : UInt32) :
    CoreEffect core (edgecoreDetachBuffer core allocId).1 False none := by
  unfold edgecoreDetachBuffer
  split_ifs with hbad
  · exact .same id
  cases hfind : findSlotById core allocId with
  | none => exact .same id
  | some i =>
    obtain ⟨slot, hslot, -, -⟩ := findSlotById_some hfind
    simp only [hslot]
    exact setBuf_effect id (List.getElem?_eq_some_iff.mp hslot).1 (by simp)

theorem edgecoreApplyConfig_effect (core : Edgecore) (cfg : Option EdgeConfig) :
    CoreEffect core (edgecoreApplyConfig core cfg).1 (cfg ≠ none) none := by
  cases cfg with
  | none => exact .same fun h => h rfl
  | some cfg =>
    have hemits : some cfg ≠ none := by simp
    simp only [edgecoreApplyConfig]
    cases edgeConfigValidate (some cfg) 96 with
    | error verr => exact emitEvent_effect hemits rfl rfl _
    | ok u =>
      cases u
      refine emitEvent_effect hemits ?_ ?_ _ <;> rfl

theorem edgecoreNextEvent_effect (core : Edgecore) :
    CoreEffect core (edgecoreNextEvent core).1 False (edgecoreNextEvent core).2 := by
  unfold edgecoreNextEvent
  split_ifs with hempty
  · exact .same id
  · exact .pulled id (by omega) rfl (pendingSlot_congr rfl)

/-- **Every operation has one of the five effects.** -/
theorem CoreOp.apply_effect (core : Edgecore) (op : CoreOp) :
    CoreEffect core (op.apply core).1 (op.Emits core) (op.apply core).2 := by
  cases op with
  | requestAlloc kind size => exact edgecoreRequestAlloc_effect core kind size
  | requestRealloc allocId newSize => exact edgecoreRequestRealloc_effect core allocId newSize
  | provideBuffer allocId ptr size => exact edgecoreProvideBuffer_effect core allocId ptr size
  | detachBuffer allocId => exact edgecoreDetachBuffer_effect core allocId
  | applyConfig cfg => exact edgecoreApplyConfig_effect core cfg
  | notifyConfigRejected reason => exact emitEvent_effect trivial rfl rfl _
  | nextEvent => exact edgecoreNextEvent_effect core

namespace CoreHistory

/-! ## Runs -/

/-- The ring invariant of a history. -/
def RingOk (h : CoreHistory) : Prop := h.core.events.WF

theorem create_ringOk (eventQueueSize : ℕ) : (create eventQueueSize).RingOk := by
  refine RingBuf.WF.empty ?_
  have hpos : 0 < edgecoreQueueSize eventQueueSize := by
    unfold edgecoreQueueSize
    split_ifs <;> first | decide | omega
  exact List.ne_nil_of_length_pos (by simpa using hpos)

theorem create_told (eventQueueSize : ℕ) : (create eventQueueSize).Told := by
  intro i slot hslot
  obtain ⟨hget, hst⟩ := pendingSlot_eq_some.mp hslot
  obtain rfl := List.eq_of_mem_replicate (List.mem_of_getElem? hget)
  cases hst

end CoreHistory

theorem CoreEffect.ringOk {core core' : Edgecore} {emits : Prop} {ev : Option EdgeEvent}
    (heff : CoreEffect core core' emits ev) (hring : core.events.WF) : core'.events.WF := by
  cases heff with
  | quiet hno hev hslots => exact hev ▸ hring
  | pulled hno hne hev hslots => exact hev ▸ hring.dropFront hne
  | reported hemits ev hroom hev hslots => exact hev ▸ hring.pushBack hroom ev
  | requested hemits ev i slot hroom hev hi hslots hasks => exact hev ▸ hring.pushBack hroom ev
  | lost hemits hfull hev hslots => exact hev ▸ hring.setFront _

namespace CoreHistory

variable {h : CoreHistory} {core' : Edgecore} {emits : Prop}

/-- A slot that is PENDING before and after keeps the place of its request. -/
theorem asked_record {ev : Option EdgeEvent} {i : ℕ} (hi : pendingSlot h.core i ≠ none) :
    (h.record core' ev).asked i = h.asked i := by
  simp [record, hi]

/-! ### The stream -/

theorem stream_record_quiet (hev : core'.events = h.core.events) :
    (h.record core' none).stream = h.stream := by
  simp [stream, record, hev]

theorem stream_record_pulled (hring : h.RingOk) (hne : 0 < h.core.events.cnt)
    (hev : core'.events = h.core.events.dropFront) :
    (h.record core' h.core.events.slots[h.core.events.head]?).stream = h.stream := by
  simp only [stream, record, hev, hring.contents_dropFront hne, ← hring.head?_contents hne,
    List.append_assoc]
  cases h.core.events.contents <;> rfl

theorem stream_record_pushed (hring : h.RingOk) {ev : EdgeEvent}
    (hroom : h.core.events.cnt < h.core.events.cap)
    (hev : core'.events = h.core.events.pushBack ev) :
    (h.record core' none).stream = h.stream ++ [ev] := by
  simp [stream, record, hev, hring.contents_pushBack hroom]

/-- An emit on a full ring overwrites the first event that the host has not pulled. -/
theorem stream_record_lost (hring : h.RingOk) (hfull : h.core.events.cap ≤ h.core.events.cnt)
    (hev : core'.events = h.core.events.setFront overflowEvent) :
    (h.record core' none).stream = h.stream.set h.delivered.length overflowEvent := by
  have hne : 0 < h.core.events.cnt := lt_of_lt_of_le hring.cap_pos hfull
  have hlen := hring.length_contents
  simp only [stream, record, hev, hring.contents_setFront hne, Option.toList_none, List.append_nil]
  cases hc : h.core.events.contents with
  | nil =>
    rw [hc] at hlen
    simp at hlen
    omega
  | cons x xs => simp [List.set_append_right]

/-! ### Keeping `Told` -/

/-- Appending to the stream keeps the places of the requests. -/
theorem told_of_append {ev : Option EdgeEvent} {new : List EdgeEvent} (htold : h.Told)
    (hstream : (h.record core' ev).stream = h.stream ++ new) {i : ℕ} {slot : EdgeBufSlot}
    (hslot : pendingSlot h.core i = some slot) :
    ∃ ev', (h.record core' ev).stream[(h.record core' ev).asked i]? = some ev' ∧
      ev'.AsksFor slot := by
  obtain ⟨ev', hev', hasks⟩ := htold i slot hslot
  refine ⟨ev', ?_, hasks⟩
  obtain ⟨hlt, -⟩ := List.getElem?_eq_some_iff.mp hev'
  rw [asked_record (by simp [hslot]), hstream, List.getElem?_append_left hlt]
  exact hev'

/-- Overwriting the oldest queued event loses exactly the request that stands there. -/
theorem told_record_lost_iff (hring : h.RingOk) (htold : h.Told)
    (hfull : h.core.events.cap ≤ h.core.events.cnt)
    (hev : core'.events = h.core.events.setFront overflowEvent)
    (hslots : pendingSlot core' = pendingSlot h.core) :
    (h.record core' none).Told ↔
      ∀ i, pendingSlot h.core i ≠ none → h.asked i ≠ h.delivered.length := by
  have hstream := stream_record_lost hring hfull hev
  constructor
  · intro htold' i hi hplace
    obtain ⟨slot, hslot⟩ := Option.ne_none_iff_exists'.mp hi
    obtain ⟨ev, hget, htype, -⟩ := htold' i slot (by rw [← hslot, ← hslots]; rfl)
    rw [asked_record hi, hplace, hstream, List.getElem?_set_self'] at hget
    cases hold : h.stream[h.delivered.length]? with
    | none => simp [hold] at hget
    | some old =>
      obtain rfl : overflowEvent = ev := by simpa [hold] using hget
      simp [overflowEvent] at htype
  · intro hspared i slot hslot
    change pendingSlot core' i = some slot at hslot
    rw [hslots] at hslot
    have hi : pendingSlot h.core i ≠ none := by simp [hslot]
    obtain ⟨ev, hget, hasks⟩ := htold i slot hslot
    refine ⟨ev, ?_, hasks⟩
    rw [asked_record hi, hstream, List.getElem?_set_ne (Ne.symm (hspared i hi))]
    exact hget

/-- **One step keeps `Told` exactly when it spares the request of every PENDING slot.** -/
theorem told_record_iff {ev : Option EdgeEvent} (heff : CoreEffect h.core core' emits ev)
    (hring : h.RingOk) (htold : h.Told) :
    (h.record core' ev).Told ↔ (emits → h.core.events.cnt = h.core.events.cap →
      ∀ i, pendingSlot h.core i ≠ none → h.asked i ≠ h.delivered.length) := by
  cases heff with
  | quiet hno hev hslots =>
    refine iff_of_true (fun i slot hslot => ?_) (fun h => absurd h hno)
    have hold : pendingSlot h.core i = some slot := by
      rcases hslots i with heq | heq
      · exact heq ▸ hslot
      · exact absurd (heq.symm.trans hslot) (by simp)
    exact told_of_append htold (by rw [stream_record_quiet hev, List.append_nil]) hold
  | pulled hno hne hev hslots =>
    refine iff_of_true (fun i slot hslot => ?_) (fun h => absurd h hno)
    exact told_of_append htold
      (by rw [stream_record_pulled hring hne hev, List.append_nil]) (hslots ▸ hslot)
  | reported hemits ev hroom hev hslots =>
    refine iff_of_true (fun i slot hslot => ?_) (fun _ hfull => by omega)
    exact told_of_append htold (stream_record_pushed hring hroom hev) (hslots ▸ hslot)
  | requested hemits ev i slot hroom hev hi hslots hasks =>
    refine iff_of_true (fun j slot' hslot => ?_) (fun _ hfull => by omega)
    change pendingSlot core' j = some slot' at hslot
    by_cases hj : j = i
    · -- The new request stands at the end of the stream.
      subst hj
      obtain rfl : slot = slot' := by simpa [hslots] using hslot
      refine ⟨ev, ?_, hasks⟩
      have hasked : (h.record core' none).asked j = h.stream.length := by
        simp [record, hi, hslot]
      rw [hasked, stream_record_pushed hring hroom hev]
      simp
    · rw [hslots, Function.update_of_ne hj] at hslot
      exact told_of_append htold (stream_record_pushed hring hroom hev) hslot
  | lost hemits hfull hev hslots =>
    rw [told_record_lost_iff hring htold hfull hev hslots]
    have hcnt : h.core.events.cnt = h.core.events.cap := le_antisymm hring.fits hfull
    exact ⟨fun hspared _ _ => hspared, fun hspared => hspared hemits hcnt⟩

theorem step_ringOk (h : CoreHistory) (op : CoreOp) (hring : h.RingOk) : (h.step op).RingOk :=
  (op.apply_effect h.core).ringOk hring

theorem told_step_iff (h : CoreHistory) (op : CoreOp) (hring : h.RingOk) (htold : h.Told) :
    (h.step op).Told ↔ h.Spares op :=
  told_record_iff (op.apply_effect h.core) hring htold

/-- **The host is told of every PENDING slot exactly along the runs that spare their requests.** -/
theorem always_told_iff (eventQueueSize : ℕ) (ops : List CoreOp) :
    Always step Told (create eventQueueSize) ops ↔ EachStep step Spares (create eventQueueSize) ops :=
  always_iff_eachStep step_ringOk told_step_iff (create_ringOk eventQueueSize)
    (create_told eventQueueSize) ops

/-- A ring of one event: a report overwrites the request of the buffer that was just asked for, and
the slot stays PENDING. -/
theorem not_always_told :
    ¬ Always step Told (create 1)
      [.requestAlloc .generic 8, .notifyConfigRejected none] := by
  intro h
  obtain ⟨ev, hget, htype, -⟩ := h.last 0
    { state := .pending, kind := .generic, allocId := 1, requested := 8 } (by decide)
  have hlost : some overflowEvent = some ev := Eq.trans (by decide) hget
  obtain rfl := Option.some.inj hlost
  simp [overflowEvent] at htype

end CoreHistory

end Edgehost
