import Edgehost.Common.RingBuf
import Edgehost.Common.Slots
import Edgehost.Core.EdgeConfig

/-!
# The core library (`edgecore.c`)

An edgecore owns a ring of output events, a table of host buffers and the active configuration. It
makes no system calls: it asks the host for memory with a `NEED_ALLOC` or `NEED_REALLOC` event, and
the host answers with `edgecoreProvideBuffer`. Every operation below is total and returns the new
core beside the C return value; the core pointer itself is never NULL here.
-/

namespace Edgehost

/-- The number of buffers one core registers. -/
def EDGECORE_MAX_BUFS : ℕ := 32

def EDGECORE_DEFAULT_Q : ℕ := 64

def EDGECORE_MAX_Q : ℕ := 256

/-- `edge_event_type_t`. -/
inductive EdgeEventType
  | none
  | needAlloc
  | needRealloc
  | wantSend
  | httpRequest
  | stateChanged
  | wsBroadcast
  | configApplied
  | configRejected
  | outboundDone
  | queueOverflow
  deriving DecidableEq

/-- `edge_buf_kind_t`. -/
inductive EdgeBufKind
  | none
  | generic
  | connRx
  | connTx
  | httpBody
  | state
  deriving DecidableEq

/-- A pointer of the host; `0` is NULL. -/
abbrev Ptr := ℕ

/-- `edge_event_t`. -/
structure EdgeEvent where
  type : EdgeEventType := .none
  reason : Bytes := []
  allocId : UInt32 := 0
  bufKind : EdgeBufKind := .none
  size : ℕ := 0
  oldPtr : Ptr := 0
  oldSize : ℕ := 0
  deriving DecidableEq

/-- `edge_buf_slot_state_t`. -/
inductive EdgeBufSlotState
  | free
  | pending
  | ready
  deriving DecidableEq

/-- `edge_buf_slot_t`; the default is the zeroed slot. -/
structure EdgeBufSlot where
  state : EdgeBufSlotState := .free
  kind : EdgeBufKind := .none
  allocId : UInt32 := 0
  ptr : Ptr := 0
  size : ℕ := 0
  requested : ℕ := 0
  deriving DecidableEq

/-- `struct edgecore`. The ring holds `events`, `head`, `tail`, `cnt`, and `qsz` as its capacity. -/
structure Edgecore where
  events : RingBuf EdgeEvent
  dropped : UInt64
  bufs : List EdgeBufSlot
  nextAllocId : UInt32
  cfg : EdgeConfig
  cfgApplied : Bool

/-- The ring capacity chosen at creation. -/
def edgecoreQueueSize (eventQueueSize : ℕ) : ℕ :=
  if eventQueueSize > 0 then
    if eventQueueSize > EDGECORE_MAX_Q then EDGECORE_MAX_Q else eventQueueSize
  else EDGECORE_DEFAULT_Q

/-- `edgecore_create_with_config`, when its allocations succeed. -/
def edgecoreCreateWithConfig (eventQueueSize : ℕ) : Edgecore where
  events := .empty (List.replicate (edgecoreQueueSize eventQueueSize) {})
  dropped := 0
  bufs := List.replicate EDGECORE_MAX_BUFS {}
  nextAllocId := 1
  cfg := edgeConfigDefaults
  cfgApplied := false

/-! ## Event ring -/

/-- The event that marks a lost one. -/
def overflowEvent : EdgeEvent where
  type := .queueOverflow
  reason := snprintf 96 (bytes "event queue full (dropped new event)")

/-- `emit_event`: `0` when queued; `-1` on a full ring, where the oldest event is overwritten. -/
def emitEvent (core : Edgecore) (ev : EdgeEvent) : Edgecore × ℤ :=
  if core.events.cnt ≥ core.events.cap then
    ({ core with events := core.events.setFront overflowEvent, dropped := core.dropped + 1 }, -1)
  else
    ({ core with events := core.events.pushBack ev }, 0)

/-- `edgecore_next_event`: `none` is the return value 0 of an empty ring. -/
def edgecoreNextEvent (core : Edgecore) : Edgecore × Option EdgeEvent :=
  if core.events.cnt = 0 then (core, none)
  else ({ core with events := core.events.dropFront }, core.events.slots[core.events.head]?)

/-- `edgecore_event_count`. -/
def edgecoreEventCount (core : Edgecore) : ℕ := core.events.cnt

/-- `edgecore_buf_kind_name`. -/
def edgecoreBufKindName : EdgeBufKind → Bytes
  | .none => bytes "NONE"
  | .generic => bytes "GENERIC"
  | .connRx => bytes "CONN_RX"
  | .connTx => bytes "CONN_TX"
  | .httpBody => bytes "HTTP_BODY"
  | .state => bytes "STATE"

/-! ## Buffer table -/

/-- The buffer slots as found by id. -/
def bufsById : SlotView EdgeBufSlot UInt32 where
  live s := s.state ≠ .free
  key s := s.allocId

/-- `find_slot_by_id`, as the index of the slot. -/
def findSlotById (core : Edgecore) (allocId : UInt32) : Option ℕ :=
  if allocId = 0 then none else bufsById.find core.bufs allocId

/-- `find_free_slot`. -/
def findFreeSlot (core : Edgecore) : Option ℕ :=
  firstFree bufsById.live core.bufs

/-- `mint_alloc_id`. -/
def mintAllocId (core : Edgecore) : Edgecore × UInt32 :=
  let id := if core.nextAllocId = 0 then 1 else core.nextAllocId
  let next := id + 1
  ({ core with nextAllocId := if next = 0 then 1 else next }, id)

/-- The event by which `edgecore_request_alloc` asks for memory. -/
def needAllocEvent (id : UInt32) (kind : EdgeBufKind) (size : ℕ) : EdgeEvent where
  type := .needAlloc
  allocId := id
  bufKind := kind
  size := size
  reason := snprintf 96
    (bytes "NEED_ALLOC " ++ edgecoreBufKindName kind ++ bytes " size=" ++ decimal size)

/-- The event by which `edgecore_request_realloc` asks to grow the buffer of `slot`. -/
def needReallocEvent (allocId : UInt32) (slot : EdgeBufSlot) (newSize : ℕ) : EdgeEvent where
  type := .needRealloc
  allocId := allocId
  bufKind := slot.kind
  size := newSize
  oldPtr := slot.ptr
  oldSize := slot.size
  reason := snprintf 96
    (bytes "NEED_REALLOC " ++ edgecoreBufKindName slot.kind ++ bytes " id=" ++
      decimal allocId.toNat ++ bytes " size=" ++ decimal newSize)

/-- Write one buffer slot. -/
def setBuf (core : Edgecore) (i : ℕ) (slot : EdgeBufSlot) : Edgecore :=
  { core with bufs := core.bufs.set i slot }

/-- `edgecore_request_alloc`: the id, or `0`. -/
def edgecoreRequestAlloc (core : Edgecore) (kind : EdgeBufKind) (size : ℕ) : Edgecore × UInt32 :=
  if size = 0 ∨ kind = .none then (core, 0)
  else
    match findFreeSlot core with
    | none => (core, 0)
    | some i =>
      let (core, id) := mintAllocId core
      let slot : EdgeBufSlot := { state := .pending, kind, allocId := id, requested := size }
      let (core, rc) := emitEvent (setBuf core i slot) (needAllocEvent id kind size)
      -- Queue full: roll back the slot.
      if rc ≠ 0 then (setBuf core i {}, 0) else (core, id)

/-- `edgecore_request_realloc`. -/
def edgecoreRequestRealloc (core : Edgecore) (allocId : UInt32) (newSize : ℕ) : Edgecore × ℤ :=
  if allocId = 0 ∨ newSize = 0 then (core, -1)
  else
    match findSlotById core allocId with
    | none => (core, -1)
    | some i =>
      match core.bufs[i]? with
      | none => (core, -1)
      | some slot =>
        if slot.state ≠ .ready then (core, -1)
        else
          let asking := { slot with state := .pending, requested := newSize }
          let (core, rc) :=
            emitEvent (setBuf core i asking) (needReallocEvent allocId slot newSize)
          -- Restore READY so that the buffer remains usable.
          if rc ≠ 0 then (setBuf core i { slot with state := .ready, requested := slot.size }, -1)
          else (core, 0)

/-- `edgecore_provide_buffer`. -/
def edgecoreProvideBuffer (core : Edgecore) (allocId : UInt32) (ptr : Ptr) (size : ℕ) :
    Edgecore × ℤ :=
  if allocId = 0 ∨ ptr = 0 ∨ size = 0 then (core, -1)
  else
    match findSlotById core allocId with
    | none => (core, -1)
    | some i =>
      match core.bufs[i]? with
      | none => (core, -1)
      | some slot =>
        if slot.state ≠ .pending then (core, -1)
        else if size < slot.requested then (core, -1)
        else (setBuf core i { slot with ptr, size, state := .ready }, 0)

/-- `edgecore_detach_buffer`, with the pointer and size it hands back. -/
def edgecoreDetachBuffer (core : Edgecore) (allocId : UInt32) : Edgecore × Option (Ptr × ℕ) :=
  if allocId = 0 then (core, none)
  else
    match findSlotById core allocId with
    | none => (core, none)
    | some i =>
      match core.bufs[i]? with
      | none => (core, none)
      | some slot => (setBuf core i {}, some (slot.ptr, slot.size))

/-- The buffer slots that are READY, as found by id. -/
def readyById : SlotView EdgeBufSlot UInt32 where
  live s := s.state = .ready
  key s := s.allocId

/-- `edgecore_buffer_ptr`. -/
def edgecoreBufferPtr (core : Edgecore) (allocId : UInt32) : Ptr :=
  if allocId = 0 then 0
  else
    match readyById.lookup core.bufs allocId with
    | none => 0
    | some slot => slot.ptr

/-- `edgecore_buffer_size`. -/
def edgecoreBufferSize (core : Edgecore) (allocId : UInt32) : ℕ :=
  if allocId = 0 then 0
  else
    match readyById.lookup core.bufs allocId with
    | none => 0
    | some slot => slot.size

/-! ## Config apply -/

/-- The event that reports a refused configuration. -/
def rejectedEvent (reason : Bytes) : EdgeEvent where
  type := .configRejected
  reason := snprintf 96 reason

/-- The event that reports an applied configuration. -/
def appliedEvent (cfg : EdgeConfig) : EdgeEvent where
  type := .configApplied
  reason := snprintf 96
    (bytes "CONFIG_APPLIED gen=" ++ decimal cfg.generation.toNat ++ bytes " port=" ++
      decimal cfg.listenPort.toNat)

/-- `edgecore_apply_config`. -/
def edgecoreApplyConfig (core : Edgecore) (cfg : Option EdgeConfig) : Edgecore × ℤ :=
  match cfg with
  | none => (core, -1)
  | some cfg =>
    match edgeConfigValidate (some cfg) 96 with
    | .error verr => ((emitEvent core (rejectedEvent verr)).1, -1)
    | .ok () =>
      let generation := core.cfg.generation + 1
      -- Skip 0 after wrap.
      let next := { cfg with generation := if generation = 0 then 1 else generation }
      ((emitEvent { core with cfg := next, cfgApplied := true } (appliedEvent next)).1, 0)

/-- `edgecore_notify_config_rejected`; `none` is a NULL reason. -/
def edgecoreNotifyConfigRejected (core : Edgecore) (reason : Option Bytes) : Edgecore × ℤ :=
  let text := match reason with
    | some (c :: cs) => c :: cs
    | _ => bytes "CONFIG_REJECTED"
  let (core, rc) := emitEvent core (rejectedEvent text)
  (core, if rc = 0 then 0 else -1)

end Edgehost
