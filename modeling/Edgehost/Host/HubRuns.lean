import Edgehost.Common.Fifo
import Edgehost.Common.Runs
import Edgehost.Host.WsHub

/-!
# Runs of the stream hub

Each slot of the hub is a bounded queue that drops its oldest message. `HubOp` are the operations,
`slotEvent` is what an operation does to one slot, read off the code's own return values, and `slotLog`
is the log of a slot over a run. Allocations succeed.

* `hubStep_fifo` is one step: the event of the slot is one of the abstract queue.
* `hub_slot_fifo` is the refinement for every run, with what it says about the messages received.
* `received_isolated`: what a slot receives does not depend on the operations on other slots.
-/

namespace Edgehost

/-- The operations on a hub; a take brings a buffer of `outCap` bytes. -/
inductive HubOp
  | subscribe (slot : ℤ)
  | unsubscribe (slot : ℤ)
  | broadcast (ns key op : Bytes) (value requestId : Option Bytes)
  | take (slot : ℤ) (outCap : ℕ)
  deriving DecidableEq

/-- A take, with the check of the buffer that comes first. -/
def hubTake (h : EdgeWsHub) (slot : ℤ) (outCap : ℕ) : EdgeWsHub × ℤ × Bytes :=
  if outCap = 0 then (h, -1, []) else edgeWsHubTakePending h slot outCap

/-- The hub after an operation. -/
def hubStep (h : EdgeWsHub) : HubOp → EdgeWsHub
  | .subscribe slot => (edgeWsHubSubscribe h slot).1
  | .unsubscribe slot => edgeWsHubUnsubscribe h slot
  | .broadcast ns key op value rid =>
    (edgeWsHubBroadcastStateChanged h (fun _ => true) ns key op value rid).1
  | .take slot outCap => (hubTake h slot outCap).1

/-- The event of a take, by its return value. -/
def takeEvent (r : ℤ × Bytes) : FifoEvent Bytes :=
  if r.1 = 1 then .took r.2 else if r.1 = 0 then .missed else .other

/-- What an operation does to slot `i`. -/
def slotEvent (i : ℕ) (h : EdgeWsHub) : HubOp → FifoEvent Bytes
  | .subscribe slot =>
    if slot = i ∧ i < h.subs.length ∧ h.queue i = none then .opened else .other
  | .unsubscribe slot => if slot = i then .closed else .other
  | .broadcast ns key op value rid =>
    match edgeWsFormatStateChanged EDGE_WS_MSG_MAX ns key op value rid with
    | none => .other
    | some msg => if (h.queue i).isSome then .put msg else .other
  | .take slot outCap => if slot = i then takeEvent (hubTake h slot outCap).2 else .other

/-- The log of slot `i` over a run. -/
def slotLog (i : ℕ) : EdgeWsHub → List HubOp → List (FifoEvent Bytes)
  | _, [] => []
  | h, op :: ops => slotEvent i h op :: slotLog i (hubStep h op) ops

/-- The messages that the takes on slot `i` return. -/
def received (i : ℕ) (h : EdgeWsHub) (ops : List HubOp) : List Bytes :=
  (slotLog i h ops).filterMap FifoEvent.taken

/-- The operations that concern slot `i`: those that name it, and every broadcast. -/
def Concerns (i : ℕ) : HubOp → Bool
  | .subscribe slot => slot = i
  | .unsubscribe slot => slot = i
  | .broadcast .. => true
  | .take slot _ => slot = i

/-! ## What an operation does to a slot -/

section Slot

variable {h : EdgeWsHub} {i : ℕ}

/-- A slot that is not there has no queue. -/
theorem queue_of_out_of_range (hi : ¬ i < h.subs.length) : h.queue i = none := by
  rw [EdgeWsHub.queue, List.getElem?_eq_none (Nat.le_of_not_lt hi)]
  rfl

/-- The queue of a slot is what is pending there. -/
theorem queue_eq_of_getElem? {s : EdgeWsSub} (hs : h.subs[i]? = some s) :
    h.queue i = if s.active then some s.pending else none := by
  rw [EdgeWsHub.queue, hs]
  by_cases hactive : s.active <;> simp [Option.filter, hactive]

theorem queue_set_ne {s : EdgeWsSub} {j : ℕ} (hij : j ≠ i) :
    EdgeWsHub.queue { h with subs := h.subs.set j s } i = h.queue i := by
  simp only [EdgeWsHub.queue, List.getElem?_set_ne hij]

theorem queue_set_self {s : EdgeWsSub} (hi : i < h.subs.length) :
    EdgeWsHub.queue { h with subs := h.subs.set i s } i = if s.active then some s.pending else none :=
  queue_eq_of_getElem? (by simp [hi])

end Slot

/-- A put into a queue that may be closed. -/
def putApply (msg : Bytes) : Option (List Bytes) → FifoEvent Bytes × Option (List Bytes)
  | none => (.other, none)
  | some q => (.put msg, some (fifoPut EDGE_WS_PENDING_MAX q msg))

/-- A take; a message that does not fit the buffer stays. -/
def takeApply (outCap : ℕ) : Option (List Bytes) → FifoEvent Bytes × Option (List Bytes)
  | none => (.missed, none)
  | some [] => (.missed, some [])
  | some (msg :: rest) =>
    if msg.length + 1 > outCap then (.other, some (msg :: rest)) else (.took msg, some rest)

/-- The slot as an abstract queue: what an operation on a hub of `size` slots does to it. -/
def slotApply (size i : ℕ) (q : Option (List Bytes)) : HubOp → FifoEvent Bytes × Option (List Bytes)
  | .subscribe slot => if slot = i ∧ i < size ∧ q = none then (.opened, some []) else (.other, q)
  | .unsubscribe slot => if slot = i then (.closed, none) else (.other, q)
  | .broadcast ns key op value rid =>
    match edgeWsFormatStateChanged EDGE_WS_MSG_MAX ns key op value rid with
    | none => (.other, q)
    | some msg => putApply msg q
  | .take slot outCap =>
    if slot = i ∧ i < size ∧ outCap ≠ 0 then takeApply outCap q else (.other, q)

/-- Every abstract operation is an event of a bounded queue. -/
theorem slotApply_fifo (size i : ℕ) (q : Option (List Bytes)) (op : HubOp) :
    FifoStep EDGE_WS_PENDING_MAX q (slotApply size i q op).1 (slotApply size i q op).2 := by
  cases op with
  | subscribe slot =>
    rw [slotApply]
    split
    · rename_i h
      rw [h.2.2]
      exact .opened
    · exact .other q
  | unsubscribe slot =>
    rw [slotApply]
    split
    · exact .closed q
    · exact .other q
  | broadcast ns key op value rid =>
    rw [slotApply]
    split
    · exact .other q
    · rcases q with _ | q
      · exact .other none
      · exact .put q _
  | take slot outCap =>
    rw [slotApply]
    split
    · rcases q with _ | _ | ⟨msg, rest⟩
      · exact .missed rfl
      · exact .missed rfl
      · rw [takeApply]
        split
        · exact .other _
        · exact .took msg rest
    · exact .other q

/-- An operation that does not concern the slot leaves its queue as it is. -/
theorem slotApply_of_not_concerns {size i : ℕ} {q : Option (List Bytes)} {op : HubOp}
    (h : Concerns i op = false) : slotApply size i q op = (.other, q) := by
  cases op with
  | subscribe slot => rw [slotApply, if_neg fun hs => of_decide_eq_false h hs.1]
  | unsubscribe slot => rw [slotApply, if_neg (of_decide_eq_false h)]
  | broadcast ns key op value rid => cases h
  | take slot outCap => rw [slotApply, if_neg fun hs => of_decide_eq_false h hs.1]

/-! ## The hub's operations -/

/-- Every ring is sound, and a slot without a subscriber holds no messages. -/
structure HubInv (h : EdgeWsHub) : Prop where
  wf : h.WF
  idle : ∀ s ∈ h.subs, s.active = false → s.pending = []

theorem EdgeWsSub.wf_idle : EdgeWsSub.idle.WF where
  ring := .empty (by decide)
  cap := rfl
  held := fun c hc => absurd hc List.not_mem_nil

/-- A new hub has no subscription. -/
theorem hubInv_create (maxSubs : ℕ) : HubInv (edgeWsHubCreate maxSubs) where
  wf s hs := by
    rw [List.eq_of_mem_replicate hs]
    exact EdgeWsSub.wf_idle
  idle s hs _ := by
    rw [List.eq_of_mem_replicate hs]
    rfl

/-- Writing one sound slot keeps the invariant. -/
theorem HubInv.set {h : EdgeWsHub} (hinv : HubInv h) {s : EdgeWsSub} (hs : s.WF)
    (hidle : s.active = false → s.pending = []) (i : ℕ) :
    HubInv { h with subs := h.subs.set i s } where
  wf x hx := by
    rcases List.mem_or_eq_of_mem_set hx with hx | rfl
    · exact hinv.wf x hx
    · exact hs
  idle x hx := by
    rcases List.mem_or_eq_of_mem_set hx with hx | rfl
    · exact hinv.idle x hx
    · exact hidle

/-- A push keeps the invariant, whatever memory there is. -/
theorem HubInv.push {h : EdgeWsHub} (hinv : HubInv h) (msg : Bytes) (alloc : ℕ → Bool) :
    HubInv (h.push msg alloc).1 where
  wf := hinv.wf.push msg alloc
  idle s hs hidle := by
    obtain ⟨j, hj, rfl⟩ := List.mem_mapIdx.mp hs
    obtain ⟨-, hactive, hpending⟩ := (hinv.wf _ (List.getElem_mem hj)).subPush msg (alloc j)
    rw [hactive] at hidle
    rw [hpending, if_neg (by simpa using hidle)]
    exact hinv.idle _ (List.getElem_mem hj) hidle

theorem toNat_ne {slot : ℤ} {i : ℕ} (hneg : ¬ slot < 0) (hne : slot ≠ i) : slot.toNat ≠ i := by
  omega

section Step

variable {h : EdgeWsHub} (hinv : HubInv h) (i : ℕ)

include hinv

/-- Subscribing opens an empty queue, or keeps the one that is there. -/
theorem hubSubscribe_spec (slot : ℤ) :
    HubInv (edgeWsHubSubscribe h slot).1 ∧
      (slotEvent i h (.subscribe slot), (edgeWsHubSubscribe h slot).1.queue i)
        = slotApply h.subs.length i (h.queue i) (.subscribe slot) := by
  unfold edgeWsHubSubscribe
  rw [slotEvent, slotApply]
  by_cases hneg : slot < 0
  · rw [if_pos hneg, if_neg fun hs => by omega, if_neg fun hs => by omega]
    exact ⟨hinv, rfl⟩
  · rw [if_neg hneg]
    rcases hs : h.subs[slot.toNat]? with _ | s
    · have hout := List.getElem?_eq_none_iff.mp hs
      rw [if_neg fun hs => by omega, if_neg fun hs => by omega]
      exact ⟨hinv, rfl⟩
    · have hmem := List.mem_of_getElem? hs
      obtain ⟨ring, cap, held⟩ := hinv.wf s hmem
      have hwf : EdgeWsSub.WF { s with active := true } := ⟨ring, cap, held⟩
      refine ⟨hinv.set hwf (fun hf => absurd hf (by simp)) _, ?_⟩
      by_cases hslot : slot = i
      · have hto : slot.toNat = i := by omega
        rw [hto] at hs ⊢
        have hi : i < h.subs.length := (List.getElem?_eq_some_iff.mp hs).1
        have hqueue : EdgeWsHub.queue { h with subs := h.subs.set i { s with active := true } } i
            = some s.pending := queue_set_self hi
        rw [hqueue, queue_eq_of_getElem? hs]
        by_cases hactive : s.active
        · simp [hactive]
        · simp [hactive, hslot, hi, hinv.idle s hmem (by simpa using hactive)]
      · rw [if_neg fun hs => hslot hs.1, if_neg fun hs => hslot hs.1]
        dsimp only
        rw [queue_set_ne (toNat_ne hneg hslot)]

/-- Unsubscribing drops it. -/
theorem hubUnsubscribe_spec (slot : ℤ) :
    HubInv (edgeWsHubUnsubscribe h slot) ∧
      (slotEvent i h (.unsubscribe slot), (edgeWsHubUnsubscribe h slot).queue i)
        = slotApply h.subs.length i (h.queue i) (.unsubscribe slot) := by
  unfold edgeWsHubUnsubscribe
  rw [slotEvent, slotApply]
  by_cases hneg : slot < 0
  · rw [if_pos hneg, if_neg (by omega), if_neg (by omega)]
    exact ⟨hinv, rfl⟩
  · rw [if_neg hneg]
    rcases hs : h.subs[slot.toNat]? with _ | s
    · refine ⟨hinv, ?_⟩
      by_cases hslot : slot = i
      · have hout := List.getElem?_eq_none_iff.mp hs
        dsimp only
        rw [if_pos hslot, if_pos hslot, queue_of_out_of_range (by omega)]
      · rw [if_neg hslot, if_neg hslot]
    · refine ⟨hinv.set EdgeWsSub.wf_idle (fun _ => rfl) _, ?_⟩
      by_cases hslot : slot = i
      · have hto : slot.toNat = i := by omega
        rw [hto] at hs ⊢
        rw [if_pos hslot, if_pos hslot, queue_set_self (List.getElem?_eq_some_iff.mp hs).1]
        rfl
      · rw [if_neg hslot, if_neg hslot, queue_set_ne (toNat_ne hneg hslot)]

/-- A broadcast puts its text at the end of every queue. -/
theorem hubBroadcast_spec (ns key op : Bytes) (value rid : Option Bytes) :
    let h' := (edgeWsHubBroadcastStateChanged h (fun _ => true) ns key op value rid).1
    HubInv h' ∧ (slotEvent i h (.broadcast ns key op value rid), h'.queue i)
      = slotApply h.subs.length i (h.queue i) (.broadcast ns key op value rid) := by
  unfold edgeWsHubBroadcastStateChanged
  rw [slotEvent, slotApply]
  rcases edgeWsFormatStateChanged EDGE_WS_MSG_MAX ns key op value rid with _ | msg
  · exact ⟨hinv, rfl⟩
  · refine ⟨hinv.push msg _, ?_⟩
    dsimp only
    rw [hinv.wf.queue_push msg (fun _ => rfl) i]
    rcases h.queue i with _ | q <;> rfl

/-- A take brings the oldest message if it fits the buffer. -/
theorem hubTake_spec (slot : ℤ) (outCap : ℕ) :
    HubInv (hubTake h slot outCap).1 ∧
      (slotEvent i h (.take slot outCap), (hubTake h slot outCap).1.queue i)
        = slotApply h.subs.length i (h.queue i) (.take slot outCap) := by
  unfold hubTake
  rw [slotEvent, slotApply, hubTake]
  by_cases hcap : outCap = 0
  · have hevent : takeEvent (-1, []) = .other := rfl
    rw [if_pos hcap, hevent, ite_self, if_neg fun hs => hs.2.2 hcap]
    exact ⟨hinv, rfl⟩
  · rw [if_neg hcap]
    by_cases hneg : slot < 0
    · rw [edgeWsHubTakePending, if_pos hneg, if_neg (by omega), if_neg (by omega)]
      exact ⟨hinv, rfl⟩
    rcases hs : h.subs[slot.toNat]? with _ | s
    · have hnone : edgeWsHubTakePending h slot outCap = (h, -1, []) := by
        simp [edgeWsHubTakePending, hneg, hs]
      have hout := List.getElem?_eq_none_iff.mp hs
      have hevent : takeEvent (-1, []) = .other := rfl
      rw [hnone, hevent, ite_self, if_neg fun hs => by omega]
      exact ⟨hinv, rfl⟩
    have hmem := List.mem_of_getElem? hs
    -- The slot of the take is either the one that is watched, or leaves it alone.
    have htake := (hinv.wf s hmem).take hs hneg outCap
    by_cases hslot : slot = i
    · have hto : slot.toNat = i := by omega
      rw [hto] at hs htake
      have hi : i < h.subs.length := (List.getElem?_eq_some_iff.mp hs).1
      rw [if_pos hslot, if_pos ⟨hslot, hi, hcap⟩, queue_eq_of_getElem? hs]
      rcases htake with ⟨hempty, heq⟩ | ⟨msg, rest, hactive, hpending, htake⟩
      · rw [heq, queue_eq_of_getElem? hs]
        refine ⟨hinv, ?_⟩
        rcases hempty with hidle | hempty
        · rw [hidle]
          rfl
        · rw [hempty]
          split <;> rfl
      · rw [hactive, if_pos rfl, hpending, takeApply]
        rcases htake with ⟨hfit, heq⟩ | ⟨hfit, s', hwf', hactive', hpending', heq⟩
        · rw [heq, if_pos hfit, queue_eq_of_getElem? hs, hactive, if_pos rfl, hpending]
          exact ⟨hinv, rfl⟩
        · rw [heq, if_neg (Nat.not_lt.mpr hfit)]
          refine ⟨hinv.set hwf' (fun hf => by rw [hactive'] at hf; cases hf) i, ?_⟩
          dsimp only
          rw [queue_set_self hi, hactive', if_pos rfl, hpending']
          rfl
    · rw [if_neg hslot, if_neg fun hs => hslot hs.1]
      rcases htake with ⟨-, heq⟩ | ⟨msg, rest, -, -, ⟨-, heq⟩ | ⟨-, s', hwf', hactive', -, heq⟩⟩
      · rw [heq]
        exact ⟨hinv, rfl⟩
      · rw [heq]
        exact ⟨hinv, rfl⟩
      · rw [heq]
        refine ⟨hinv.set hwf' (fun hf => by rw [hactive'] at hf; cases hf) _, ?_⟩
        dsimp only
        rw [queue_set_ne (toNat_ne hneg hslot)]

/-- **One step.** What an operation does to a slot is what it does to the abstract queue. -/
theorem hubStep_spec (op : HubOp) :
    HubInv (hubStep h op) ∧ (slotEvent i h op, (hubStep h op).queue i)
      = slotApply h.subs.length i (h.queue i) op := by
  cases op with
  | subscribe slot => exact hubSubscribe_spec hinv i slot
  | unsubscribe slot => exact hubUnsubscribe_spec hinv i slot
  | broadcast ns key op value rid => exact hubBroadcast_spec hinv i ns key op value rid
  | take slot outCap => exact hubTake_spec hinv i slot outCap

/-- **One step is one of the bounded queue.** -/
theorem hubStep_fifo (op : HubOp) :
    FifoStep EDGE_WS_PENDING_MAX (h.queue i) (slotEvent i h op) ((hubStep h op).queue i) := by
  obtain ⟨hevent, hqueue⟩ := Prod.mk.inj (hubStep_spec hinv i op).2
  rw [hevent, hqueue]
  exact slotApply_fifo _ i _ op

end Step

theorem hubTakePending_length (h : EdgeWsHub) (slot : ℤ) (outCap : ℕ) :
    (edgeWsHubTakePending h slot outCap).1.subs.length = h.subs.length := by
  unfold edgeWsHubTakePending
  split
  · rfl
  · split
    · rfl
    · split
      · rfl
      · dsimp only
        split
        · rfl
        · exact List.length_set

/-- No operation changes the number of slots. -/
theorem hubStep_length (h : EdgeWsHub) (op : HubOp) :
    (hubStep h op).subs.length = h.subs.length := by
  cases op with
  | subscribe slot =>
    rw [hubStep, edgeWsHubSubscribe]
    split
    · rfl
    · split
      · rfl
      · exact List.length_set
  | unsubscribe slot =>
    rw [hubStep, edgeWsHubUnsubscribe]
    split
    · rfl
    · split
      · rfl
      · exact List.length_set
  | broadcast ns key op value rid =>
    rw [hubStep, edgeWsHubBroadcastStateChanged]
    split
    · rfl
    · exact List.length_mapIdx
  | take slot outCap =>
    rw [hubStep, hubTake]
    split
    · rfl
    · exact hubTakePending_length h slot outCap

/-! ## Runs -/

/-- The log grows with the run. -/
theorem slotLog_snoc (i : ℕ) (h : EdgeWsHub) (ops : List HubOp) (op : HubOp) :
    slotLog i h (ops ++ [op])
      = slotLog i h ops ++ [slotEvent i (runFrom hubStep h ops) op] := by
  induction ops generalizing h with
  | nil => rfl
  | cons o ops ih => exact congrArg (slotEvent i h o :: ·) (ih _)

theorem hubInv_run (maxSubs : ℕ) (ops : List HubOp) :
    HubInv (runFrom hubStep (edgeWsHubCreate maxSubs) ops) :=
  runFrom_of_step (P := HubInv) (fun _ op h => (hubStep_spec h 0 op).1) (hubInv_create maxSubs) ops

theorem queue_create (maxSubs i : ℕ) : (edgeWsHubCreate maxSubs).queue i = none := by
  by_cases hi : i < (edgeWsHubCreate maxSubs).subs.length
  · rw [queue_eq_of_getElem? (List.getElem?_eq_getElem hi)]
    rw [List.eq_of_mem_replicate (List.getElem_mem hi)]
    rfl
  · exact queue_of_out_of_range hi

/-- The log of a slot is the log of a bounded queue. -/
theorem slotLog_fifo (maxSubs : ℕ) (ops : List HubOp) (i : ℕ) :
    FifoRun EDGE_WS_PENDING_MAX (slotLog i (edgeWsHubCreate maxSubs) ops)
      ((runFrom hubStep (edgeWsHubCreate maxSubs) ops).queue i) := by
  induction ops using List.reverseRecOn with
  | nil =>
    rw [runFrom_nil, queue_create]
    exact .start
  | append_singleton ops op ih =>
    rw [slotLog_snoc, runFrom_append]
    exact ih.snoc (hubStep_fifo (hubInv_run maxSubs ops) i op)

/-- **What a slot receives depends on its own operations and on the broadcasts only.** -/
theorem received_isolated (i : ℕ) {h h' : EdgeWsHub} (hinv : HubInv h) (hinv' : HubInv h')
    (hsize : h'.subs.length = h.subs.length) (hqueue : h'.queue i = h.queue i) (ops : List HubOp) :
    received i h' (ops.filter (Concerns i)) = received i h ops := by
  induction ops generalizing h h' with
  | nil => rfl
  | cons op ops ih =>
    obtain ⟨hnext, hspec⟩ := hubStep_spec hinv i op
    obtain ⟨hnext', hspec'⟩ := hubStep_spec hinv' i op
    rw [hsize, hqueue, ← hspec] at hspec'
    obtain ⟨hevent, hsame⟩ := Prod.mk.inj hspec'
    by_cases hop : Concerns i op
    · have hlen : (hubStep h' op).subs.length = (hubStep h op).subs.length := by
        rw [hubStep_length, hubStep_length, hsize]
      have hrest := ih hnext hnext' hlen hsame
      rw [List.filter_cons_of_pos hop]
      simp only [received, slotLog, hevent] at hrest ⊢
      rw [List.filterMap_cons, List.filterMap_cons, hrest]
    · rw [slotApply_of_not_concerns (by simpa using hop)] at hspec
      obtain ⟨hother, hkept⟩ := Prod.mk.inj hspec
      have hrest := ih hnext hinv' (by rw [hubStep_length, hsize]) (by rw [hkept, hqueue])
      rw [List.filter_cons_of_neg hop, hrest]
      simp only [received, slotLog, hother]
      rw [List.filterMap_cons_none rfl]

/-- **Every slot of the hub is a bounded queue.** Over every run, for every slot: its log is that of a
queue of at most eight messages that drops the oldest, every operation acts on it as on that queue, and
what it receives does not depend on the operations on other slots. -/
theorem hub_slot_fifo (maxSubs : ℕ) (ops : List HubOp) (i : ℕ) :
    let start := edgeWsHubCreate maxSubs
    let hub := runFrom hubStep start ops
    FifoRun EDGE_WS_PENDING_MAX (slotLog i start ops) (hub.queue i) ∧
      ((hub.queue i).getD []).length ≤ EDGE_WS_PENDING_MAX ∧
      FifoHistory EDGE_WS_PENDING_MAX (slotLog i start ops) ∧
      (∀ op, (slotEvent i hub op, (hubStep hub op).queue i)
        = slotApply hub.subs.length i (hub.queue i) op) ∧
      received i start (ops.filter (Concerns i)) = received i start ops := by
  intro start hub
  have hrun := slotLog_fifo maxSubs ops i
  have hinv := hubInv_create maxSubs
  exact ⟨hrun, hrun.length_le (by decide), hrun.history,
    fun op => (hubStep_spec (hubInv_run maxSubs ops) i op).2,
    received_isolated i hinv hinv rfl rfl ops⟩

/-- **Subscribing is idempotent.** A call for a slot that is subscribed opens no new subscription: the slot
keeps its queue, and the hub stays as it was. -/
theorem edgeWsHubSubscribe_again {h : EdgeWsHub} {i : ℕ} {q : List Bytes} (hq : h.queue i = some q) :
    edgeWsHubSubscribe h i = (h, 0) := by
  obtain ⟨s, hs, -⟩ := Option.map_eq_some_iff.mp hq
  obtain ⟨hget, hactive⟩ := Option.filter_eq_some_iff.mp hs
  obtain ⟨hi, hget'⟩ := List.getElem?_eq_some_iff.mp hget
  have hsame : { s with active := true } = s := by rw [← show s.active = true from hactive]
  rw [edgeWsHubSubscribe, if_neg (by omega), Int.toNat_natCast, hget]
  dsimp only
  rw [hsame, ← hget', List.set_getElem_self]

end Edgehost
