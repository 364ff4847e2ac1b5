import Edgehost.Core.EdgecoreRequests

/-!
# The event ring as a bounded queue

The core keeps its events in a ring over a fixed array. `BoundedQueue` is what the ring is for: a list
of at most `cap` elements that is filled at the back and emptied at the front, where an element that
finds no room is lost and leaves a mark in place of the oldest one.

* `RingRefines` says that a core's ring is such a queue: the indices are in range, and emitting and
  pulling are the operations of the queue.
* `CoreHistory.queueLog_run`: whatever is done to a core, its ring and the events that it has handed
  out are those of a bounded queue after the same emits and pulls.
-/

namespace Edgehost

variable {α : Type*}

/-! ## The queue -/

/-- A queue of bounded capacity that counts what it loses. -/
structure BoundedQueue (α : Type*) where
  cap : ℕ
  items : List α
  dropped : UInt64

namespace BoundedQueue

/-- An empty queue. -/
def empty (cap : ℕ) : BoundedQueue α := ⟨cap, [], 0⟩

/-- Append an element. A full queue loses it: the oldest element turns into a mark. -/
def emit (mark : α) (q : BoundedQueue α) (x : α) : BoundedQueue α × ℤ :=
  if q.items.length < q.cap then ({ q with items := q.items ++ [x] }, 0)
  else ({ q with items := mark :: q.items.tail, dropped := q.dropped + 1 }, -1)

/-- Take the oldest element. -/
def next (q : BoundedQueue α) : BoundedQueue α × Option α :=
  ({ q with items := q.items.tail }, q.items.head?)

end BoundedQueue

/-- What happens to a queue. -/
inductive QueueOp (α : Type*)
  | emit (x : α)
  | next
  | skip

/-- A queue with the elements that were taken from it, in order. -/
structure QueueLog (α : Type*) where
  queue : BoundedQueue α
  delivered : List α

/-- One operation on a queue. -/
def QueueLog.step (mark : α) (l : QueueLog α) : QueueOp α → QueueLog α
  | .emit x => { l with queue := (l.queue.emit mark x).1 }
  | .next => ⟨l.queue.next.1, l.delivered ++ l.queue.next.2.toList⟩
  | .skip => l

/-! ## The ring of a core -/

/-- The queue that the ring of a core stands for. -/
def Edgecore.queue (core : Edgecore) : BoundedQueue EdgeEvent :=
  ⟨core.events.cap, core.events.contents, core.dropped⟩

/-- The ring of a core is a bounded queue. -/
structure RingRefines (core : Edgecore) : Prop where
  one_le_cap : 1 ≤ core.events.cap
  cap_le : core.events.cap ≤ EDGECORE_MAX_Q
  cnt_le : core.events.cnt ≤ core.events.cap
  head_lt : core.events.head < core.events.cap
  tail_lt : core.events.tail < core.events.cap
  tail_eq : core.events.tail = (core.events.head + core.events.cnt) % core.events.cap
  count : edgecoreEventCount core = core.queue.items.length
  emit : ∀ ev, ((emitEvent core ev).1.queue, (emitEvent core ev).2) =
    core.queue.emit overflowEvent ev
  next : ((edgecoreNextEvent core).1.queue, (edgecoreNextEvent core).2) = core.queue.next

theorem emitEvent_queue {core : Edgecore} (h : core.events.WF) (ev : EdgeEvent) :
    ((emitEvent core ev).1.queue, (emitEvent core ev).2) = core.queue.emit overflowEvent ev := by
  have hlen := h.length_contents
  rcases emitEvent_cases core ev with ⟨hroom, heq⟩ | ⟨hfull, heq⟩
  · have hcap : core.queue.items.length < core.queue.cap := by
      simpa only [Edgecore.queue, hlen] using hroom
    rw [heq, BoundedQueue.emit, if_pos hcap]
    simp only [Edgecore.queue, RingBuf.cap_pushBack, h.contents_pushBack hroom]
  · have hcap : ¬core.queue.items.length < core.queue.cap := by
      simpa only [Edgecore.queue, hlen, not_lt] using hfull
    have hne : 0 < core.events.cnt := lt_of_lt_of_le h.cap_pos hfull
    rw [heq, BoundedQueue.emit, if_neg hcap]
    simp only [Edgecore.queue, RingBuf.cap_setFront, h.contents_setFront hne]

theorem edgecoreNextEvent_queue {core : Edgecore} (h : core.events.WF) :
    ((edgecoreNextEvent core).1.queue, (edgecoreNextEvent core).2) = core.queue.next := by
  have hlen := h.length_contents
  unfold edgecoreNextEvent
  split_ifs with hempty
  · have hnil : core.events.contents = [] := List.length_eq_zero_iff.mp (hlen.trans hempty)
    simp only [BoundedQueue.next, Edgecore.queue, hnil, List.tail_nil, List.head?_nil]
  · have hne : 0 < core.events.cnt := Nat.pos_of_ne_zero hempty
    simp only [BoundedQueue.next, Edgecore.queue, RingBuf.cap_dropFront, h.contents_dropFront hne,
      h.head?_contents hne]

/-- The index invariant and the bounds on the capacity make the ring a queue. -/
theorem ringRefines_of_wf {core : Edgecore} (h : core.events.WF)
    (hcap : core.events.cap ≤ EDGECORE_MAX_Q) : RingRefines core where
  one_le_cap := h.cap_pos
  cap_le := hcap
  cnt_le := h.fits
  head_lt := h.head_lt
  tail_lt := h.tail_lt
  tail_eq := h.tail_eq
  count := h.length_contents.symm
  emit := emitEvent_queue h
  next := edgecoreNextEvent_queue h

/-! ## What the operations do to the queue -/

/-- The configuration that is active once `cfg` has been accepted. -/
def acceptedConfig (core : Edgecore) (cfg : EdgeConfig) : EdgeConfig :=
  { cfg with
    generation := if core.cfg.generation + 1 = 0 then 1 else core.cfg.generation + 1 }

/-- What an operation of a core does to its queue. -/
def CoreOp.queueOp (core : Edgecore) : CoreOp → QueueOp EdgeEvent
  | .requestAlloc kind size =>
    if size = 0 ∨ kind = .none then .skip
    else
      match findFreeSlot core with
      | none => .skip
      | some _ => .emit (needAllocEvent (mintAllocId core).2 kind size)
  | .requestRealloc allocId newSize =>
    if allocId = 0 ∨ newSize = 0 then .skip
    else
      match (findSlotById core allocId).bind (core.bufs[·]?) with
      | none => .skip
      | some slot =>
        if slot.state ≠ .ready then .skip else .emit (needReallocEvent allocId slot newSize)
  | .applyConfig none => .skip
  | .applyConfig (some cfg) =>
    match edgeConfigValidate (some cfg) 96 with
    | .error verr => .emit (rejectedEvent verr)
    | .ok () => .emit (appliedEvent (acceptedConfig core cfg))
  | .notifyConfigRejected reason =>
    .emit (rejectedEvent (match reason with
      | some (c :: cs) => c :: cs
      | _ => bytes "CONFIG_REJECTED"))
  | .nextEvent => .next
  | .provideBuffer .. | .detachBuffer _ => .skip

@[simp] theorem queue_setBuf (core : Edgecore) (i : ℕ) (slot : EdgeBufSlot) :
    (setBuf core i slot).queue = core.queue := rfl

@[simp] theorem queue_mintAllocId (core : Edgecore) : (mintAllocId core).1.queue = core.queue := rfl

theorem queue_emitEvent {core : Edgecore} (h : core.events.WF) (ev : EdgeEvent) :
    (emitEvent core ev).1.queue = (core.queue.emit overflowEvent ev).1 :=
  congrArg Prod.fst (emitEvent_queue h ev)

theorem edgecoreRequestAlloc_queue {core : Edgecore} (h : core.events.WF) (kind : EdgeBufKind)
    (size : ℕ) (log : List EdgeEvent) :
    QueueLog.mk (edgecoreRequestAlloc core kind size).1.queue log =
      QueueLog.step overflowEvent ⟨core.queue, log⟩ ((CoreOp.requestAlloc kind size).queueOp core) := by
  simp only [edgecoreRequestAlloc, CoreOp.queueOp]
  split_ifs with hbad
  · rfl
  cases findFreeSlot core with
  | none => rfl
  | some i =>
    have hemit := queue_emitEvent
      (show (setBuf (mintAllocId core).1 i
        { state := .pending, kind, allocId := (mintAllocId core).2, requested := size }).events.WF from h)
      (needAllocEvent (mintAllocId core).2 kind size)
    rw [queue_setBuf, queue_mintAllocId] at hemit
    simp only [QueueLog.step, ← hemit]
    split_ifs <;> rfl

theorem edgecoreRequestRealloc_queue {core : Edgecore} (h : core.events.WF) (allocId : UInt32)
    (newSize : ℕ) (log : List EdgeEvent) :
    QueueLog.mk (edgecoreRequestRealloc core allocId newSize).1.queue log =
      QueueLog.step overflowEvent ⟨core.queue, log⟩
        ((CoreOp.requestRealloc allocId newSize).queueOp core) := by
  simp only [edgecoreRequestRealloc, CoreOp.queueOp]
  split_ifs with hbad
  · rfl
  cases hfind : findSlotById core allocId with
  | none => rfl
  | some i =>
    obtain ⟨slot, hslot, -, -⟩ := findSlotById_some hfind
    simp only [hslot, Option.bind_some]
    by_cases hready : slot.state ≠ .ready
    · rw [if_pos hready, if_pos hready]
      rfl
    · rw [if_neg hready, if_neg hready]
      have hemit := queue_emitEvent
        (show (setBuf core i { slot with state := .pending, requested := newSize }).events.WF from h)
        (needReallocEvent allocId slot newSize)
      rw [queue_setBuf] at hemit
      simp only [QueueLog.step, ← hemit]
      split_ifs <;> rfl

theorem edgecoreApplyConfig_ok {core : Edgecore} {cfg : EdgeConfig}
    (h : edgeConfigValidate (some cfg) 96 = .ok ()) :
    edgecoreApplyConfig core (some cfg) =
      ((emitEvent { core with cfg := acceptedConfig core cfg, cfgApplied := true }
        (appliedEvent (acceptedConfig core cfg))).1, 0) := by
  simp only [edgecoreApplyConfig, h]
  rfl

theorem edgecoreApplyConfig_error {core : Edgecore} {cfg : EdgeConfig} {verr : Bytes}
    (h : edgeConfigValidate (some cfg) 96 = .error verr) :
    edgecoreApplyConfig core (some cfg) = ((emitEvent core (rejectedEvent verr)).1, -1) := by
  simp only [edgecoreApplyConfig, h]

theorem edgecoreApplyConfig_queue {core : Edgecore} (h : core.events.WF) (cfg : Option EdgeConfig)
    (log : List EdgeEvent) :
    QueueLog.mk (edgecoreApplyConfig core cfg).1.queue log =
      QueueLog.step overflowEvent ⟨core.queue, log⟩ ((CoreOp.applyConfig cfg).queueOp core) := by
  cases cfg with
  | none => rfl
  | some cfg =>
    simp only [CoreOp.queueOp]
    cases hval : edgeConfigValidate (some cfg) 96 with
    | error verr =>
      rw [edgecoreApplyConfig_error hval]
      simp only [QueueLog.step, queue_emitEvent h]
    | ok u =>
      have hemit := queue_emitEvent
        (show { core with cfg := acceptedConfig core cfg, cfgApplied := true }.events.WF from h)
        (appliedEvent (acceptedConfig core cfg))
      rw [edgecoreApplyConfig_ok hval]
      simp only [QueueLog.step, hemit]
      rfl

/-- Providing and detaching buffers leaves the ring alone. -/
theorem edgecoreProvideBuffer_queue (core : Edgecore) (allocId : UInt32) (ptr : Ptr) (size : ℕ) :
    (edgecoreProvideBuffer core allocId ptr size).1.queue = core.queue := by
  unfold edgecoreProvideBuffer
  split_ifs
  · rfl
  cases hfind : findSlotById core allocId with
  | none => rfl
  | some i =>
    obtain ⟨slot, hslot, -, -⟩ := findSlotById_some hfind
    simp only [hslot]
    split_ifs <;> rfl

theorem edgecoreDetachBuffer_queue (core : Edgecore) (allocId : UInt32) :
    (edgecoreDetachBuffer core allocId).1.queue = core.queue := by
  unfold edgecoreDetachBuffer
  split_ifs
  · rfl
  cases hfind : findSlotById core allocId with
  | none => rfl
  | some i =>
    obtain ⟨slot, hslot, -, -⟩ := findSlotById_some hfind
    simp only [hslot]
    rfl

/-- What a history shows of the queue. -/
def CoreHistory.queueLog (h : CoreHistory) : QueueLog EdgeEvent := ⟨h.core.queue, h.delivered⟩

theorem edgecoreNotifyConfigRejected_queue {core : Edgecore} (h : core.events.WF)
    (reason : Option Bytes) (log : List EdgeEvent) :
    QueueLog.mk (edgecoreNotifyConfigRejected core reason).1.queue log =
      QueueLog.step overflowEvent ⟨core.queue, log⟩
        ((CoreOp.notifyConfigRejected reason).queueOp core) :=
  congrArg (fun queue => QueueLog.mk queue log) (queue_emitEvent h _)

/-- **One operation of a core is one operation of its queue.** -/
theorem CoreHistory.queueLog_step {h : CoreHistory} (hring : h.RingOk) (op : CoreOp) :
    (h.step op).queueLog = h.queueLog.step overflowEvent (op.queueOp h.core) := by
  have hlog : (h.step op).queueLog =
      ⟨(op.apply h.core).1.queue, h.delivered ++ (op.apply h.core).2.toList⟩ := rfl
  rw [hlog]
  cases op with
  | nextEvent =>
    have hnext := edgecoreNextEvent_queue hring
    simp only [CoreOp.queueOp, QueueLog.step, CoreHistory.queueLog, CoreOp.apply, ← hnext]
  | requestAlloc kind size =>
    rw [CoreOp.apply, Option.toList_none, List.append_nil]
    exact edgecoreRequestAlloc_queue hring kind size h.delivered
  | requestRealloc allocId newSize =>
    rw [CoreOp.apply, Option.toList_none, List.append_nil]
    exact edgecoreRequestRealloc_queue hring allocId newSize h.delivered
  | provideBuffer allocId ptr size =>
    rw [CoreOp.apply, Option.toList_none, List.append_nil, edgecoreProvideBuffer_queue]
    rfl
  | detachBuffer allocId =>
    rw [CoreOp.apply, Option.toList_none, List.append_nil, edgecoreDetachBuffer_queue]
    rfl
  | applyConfig cfg =>
    rw [CoreOp.apply, Option.toList_none, List.append_nil]
    exact edgecoreApplyConfig_queue hring cfg h.delivered
  | notifyConfigRejected reason =>
    rw [CoreOp.apply, Option.toList_none, List.append_nil]
    exact edgecoreNotifyConfigRejected_queue hring reason h.delivered

/-! ## Whole runs -/

/-- The operations of the queue along a run of a core. -/
def CoreHistory.queueOps : CoreHistory → List CoreOp → List (QueueOp EdgeEvent)
  | _, [] => []
  | h, op :: ops => op.queueOp h.core :: (h.step op).queueOps ops

theorem CoreHistory.queueLog_run {h : CoreHistory} (hring : h.RingOk) (ops : List CoreOp) :
    (runFrom CoreHistory.step h ops).queueLog =
      runFrom (QueueLog.step overflowEvent) h.queueLog (h.queueOps ops) := by
  induction ops generalizing h with
  | nil => rfl
  | cons op ops ih =>
    rw [runFrom_cons, ih (step_ringOk h op hring), CoreHistory.queueLog_step hring op]
    rfl

/-- The capacity is chosen at creation and stays. -/
theorem CoreEffect.cap_eq {core core' : Edgecore} {emits : Prop} {ev : Option EdgeEvent}
    (h : CoreEffect core core' emits ev) : core'.events.cap = core.events.cap := by
  cases h with
  | quiet _ hev _ => rw [hev]
  | pulled _ _ hev _ => rw [hev, RingBuf.cap_dropFront]
  | reported _ ev _ hev _ => rw [hev, RingBuf.cap_pushBack]
  | requested _ ev i slot _ hev _ _ _ => rw [hev, RingBuf.cap_pushBack]
  | lost _ _ hev _ => rw [hev, RingBuf.cap_setFront]

theorem edgecoreQueueSize_le (eventQueueSize : ℕ) :
    edgecoreQueueSize eventQueueSize ≤ EDGECORE_MAX_Q := by
  unfold edgecoreQueueSize
  split_ifs with hpos hbig
  · exact le_rfl
  · exact Nat.not_lt.mp hbig
  · decide

/-- **The event ring refines a bounded queue.** Along every run the ring is a bounded queue in every
state, and at the end its events, its losses and the events handed out are those of a queue that went
through the same emits and pulls. -/
theorem edgecore_refines_queue (eventQueueSize : ℕ) (ops : List CoreOp) :
    Always CoreHistory.step (fun h => RingRefines h.core) (CoreHistory.create eventQueueSize) ops ∧
      (runFrom CoreHistory.step (CoreHistory.create eventQueueSize) ops).queueLog =
        runFrom (QueueLog.step overflowEvent)
          ⟨BoundedQueue.empty (edgecoreQueueSize eventQueueSize), []⟩
          ((CoreHistory.create eventQueueSize).queueOps ops) := by
  have hcap : (CoreHistory.create eventQueueSize).core.events.cap =
      edgecoreQueueSize eventQueueSize := List.length_replicate
  have hring := CoreHistory.create_ringOk eventQueueSize
  constructor
  · have hinv : Always CoreHistory.step
        (fun h => h.RingOk ∧ h.core.events.cap ≤ EDGECORE_MAX_Q)
        (CoreHistory.create eventQueueSize) ops := by
      refine always_of_step (fun h op hh => ?_) ⟨hring, ?_⟩ ops
      · refine ⟨CoreHistory.step_ringOk h op hh.1, le_trans (le_of_eq ?_) hh.2⟩
        exact (op.apply_effect h.core).cap_eq
      · exact hcap ▸ edgecoreQueueSize_le eventQueueSize
    exact hinv.mono fun h hh => ringRefines_of_wf hh.1 hh.2
  · rw [CoreHistory.queueLog_run hring, BoundedQueue.empty, ← hcap]
    rfl

/-- A queue of one element that is filled twice holds the mark alone, and has lost one event. -/
example (a b : EdgeEvent) :
    (BoundedQueue.emit overflowEvent ((BoundedQueue.empty 1).emit overflowEvent a).1 b).1.items =
      [overflowEvent] := rfl

end Edgehost
