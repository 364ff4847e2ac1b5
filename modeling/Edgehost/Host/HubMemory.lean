import Edgehost.Host.HubRuns
import Edgehost.Host.StreamLaws

/-!
# The hub when memory runs out

`sub_push` makes room in a full queue before it asks for the memory of the new message. When there is none,
the subscriber has lost its oldest message and gets nothing for it.

* `pushAtomic_iff` is one push: a failed one changes nothing exactly when the queue was not full.
* `failed_push_atomic_iff` is the law for every call of every run.
-/

namespace Edgehost

/-! ## Calls -/

/-- The calls on a hub; `alloc i` says whether a broadcast finds memory for the copy of slot `i`. -/
inductive HubCall
  | hub (op : HubOp) (alloc : ℕ → Bool)
  | mint (prefer : Option Bytes) (outSz : ℕ)

/-- The hub after a call. -/
def hubCallStep (h : EdgeWsHub) : HubCall → EdgeWsHub
  | .hub (.broadcast ns key op value rid) alloc =>
    (edgeWsHubBroadcastStateChanged h alloc ns key op value rid).1
  | .hub op _ => hubStep h op
  | .mint prefer outSz => (edgeWsHubMintRequestId (some h) prefer outSz).1.getD h

/-- A push that fails leaves the subscriber as it was. -/
def PushAtomic (s : EdgeWsSub) (msg : Bytes) (alloc : Bool) : Prop :=
  (subPush s msg alloc).2 ≠ 0 → (subPush s msg alloc).1 = s

/-- No call loses a message: every push of a broadcast that fails changes nothing, and every queue stays as
it is or gets the new message. -/
def AtomicAt (h : EdgeWsHub) : HubCall → Prop
  | .hub (.broadcast ns key op value rid) alloc =>
    ∀ msg, edgeWsFormatStateChanged EDGE_WS_MSG_MAX ns key op value rid = some msg →
      (∀ i s, h.subs[i]? = some s → PushAtomic s msg (alloc i)) ∧
      ∀ i, (edgeWsHubBroadcastStateChanged h alloc ns key op value rid).1.queue i = h.queue i ∨
        (edgeWsHubBroadcastStateChanged h alloc ns key op value rid).1.queue i
          = (h.queue i).map (enqueue msg)
  | _ => True

/-- A broadcast whose message fits finds memory for every subscriber with a full queue. -/
def FedAt (h : EdgeWsHub) : HubCall → Prop
  | .hub (.broadcast ns key op value rid) alloc =>
    StateChangedFits EDGE_WS_MSG_MAX ns key op value rid →
      ∀ i q, h.queue i = some q → EDGE_WS_PENDING_MAX ≤ q.length → alloc i = true
  | _ => True

/-! ## One push -/

/-- **When a failed push is atomic**: unless the queue of an active subscriber is full and there is no
memory. -/
theorem pushAtomic_iff {s : EdgeWsSub} (hwf : s.WF) (msg : Bytes) (alloc : Bool) :
    PushAtomic s msg alloc ↔ (s.active → EDGE_WS_PENDING_MAX ≤ s.pending.length → alloc = true) := by
  rw [hwf.length_pending]
  constructor
  · intro hatomic hactive hfull
    by_contra hnone
    have halloc : alloc = false := Bool.eq_false_of_not_eq_true hnone
    have hfails : (subPush s msg alloc).2 ≠ 0 := by
      simp [subPush, hactive, halloc]
    exact subPush_ne hwf hactive msg (.inr hfull) (hatomic hfails)
  · intro hfed hfails
    refine subPush_eq msg ?_
    rintro ⟨hactive, htakes⟩
    have halloc : alloc = true := htakes.elim id (hfed hactive)
    exact hfails (by simp [subPush, hactive, halloc])

/-- The queue of a slot is that of its subscriber. -/
theorem queue_eq_some_iff {h : EdgeWsHub} {i : ℕ} {q : List Bytes} :
    h.queue i = some q ↔ ∃ s, h.subs[i]? = some s ∧ s.active ∧ s.pending = q := by
  rcases hs : h.subs[i]? with _ | s
  · rw [EdgeWsHub.queue, hs]
    simp
  · rw [queue_eq_of_getElem? hs]
    simp

/-! ## One call -/

/-- **One broadcast.** It loses no message exactly when every full queue gets its memory. -/
theorem atomicAt_iff {h : EdgeWsHub} (hwf : h.WF) (call : HubCall) : AtomicAt h call ↔ FedAt h call := by
  rcases call with ⟨op, alloc⟩ | ⟨prefer, outSz⟩
  swap
  · exact Iff.rfl
  rcases op with slot | slot | ⟨ns, key, op, value, rid⟩ | ⟨slot, outCap⟩
  · exact Iff.rfl
  · exact Iff.rfl
  swap
  · exact Iff.rfl
  constructor
  · intro hatomic hfits i q hq hfull
    obtain ⟨s, hs, hactive, rfl⟩ := queue_eq_some_iff.mp hq
    have hpush := (hatomic _ (edgeWsFormatStateChanged_eq_some.mpr ⟨hfits, rfl⟩)).1 i s hs
    exact (pushAtomic_iff (hwf s (List.mem_of_getElem? hs)) _ _).mp hpush hactive hfull
  · intro hfed msg hmsg
    have hfed := hfed (edgeWsFormatStateChanged_eq_some.mp hmsg).1
    refine ⟨fun i s hs => ?_, fun i => ?_⟩
    · rw [pushAtomic_iff (hwf s (List.mem_of_getElem? hs))]
      exact fun hactive hfull => hfed i s.pending (queue_eq_some_iff.mpr ⟨s, hs, hactive, rfl⟩) hfull
    · have hqueue := hwf.queue_push_alloc msg alloc i
      rw [edgeWsHubBroadcastStateChanged, hmsg]
      rcases hq : h.queue i with _ | q
      · exact .inl (by rw [hqueue, hq]; rfl)
      rw [hqueue, hq, Option.map_some, Option.map_some]
      by_cases halloc : alloc i
      · exact .inr (by rw [if_pos halloc, enqueue])
      · -- Without memory the queue is not full, so there is no message to drop.
        have hroom : ¬EDGE_WS_PENDING_MAX ≤ q.length := fun hfull => halloc (hfed i q hq hfull)
        exact .inl (by rw [if_neg halloc, dropOldest, if_neg hroom, List.append_nil])

/-- Every call keeps the invariant of the hub. -/
theorem hubCallStep_inv (h : EdgeWsHub) (call : HubCall) (hinv : HubInv h) :
    HubInv (hubCallStep h call) := by
  rcases call with ⟨op, alloc⟩ | ⟨prefer, outSz⟩
  · rcases op with slot | slot | ⟨ns, key, op, value, rid⟩ | ⟨slot, outCap⟩
    · exact (hubStep_spec hinv 0 (.subscribe slot)).1
    · exact (hubStep_spec hinv 0 (.unsubscribe slot)).1
    · rw [hubCallStep, edgeWsHubBroadcastStateChanged]
      split
      · exact hinv
      · exact hinv.push _ alloc
    · exact (hubStep_spec hinv 0 (.take slot outCap)).1
  · -- A request id is minted without a look at the queues.
    rcases prefer with _ | _ | ⟨c, cs⟩
    · exact ⟨hinv.wf, hinv.idle⟩
    · exact ⟨hinv.wf, hinv.idle⟩
    · exact hinv

/-! ## Runs -/

theorem hubInv_calls (maxSubs : ℕ) (calls : List HubCall) :
    HubInv (runFrom hubCallStep (edgeWsHubCreate maxSubs) calls) :=
  runFrom_of_step hubCallStep_inv (hubInv_create maxSubs) calls

/-- **When no broadcast loses a message.** In every hub that a run reaches, for every call: each failed push
is atomic, and no queue loses a message without getting the new one, exactly when every subscriber with a
full queue gets its memory; so a run loses none exactly when all its calls are such. -/
theorem failed_push_atomic_iff (maxSubs : ℕ) (calls : List HubCall) :
    let start := edgeWsHubCreate maxSubs
    (∀ call, AtomicAt (runFrom hubCallStep start calls) call ↔
      FedAt (runFrom hubCallStep start calls) call) ∧
    (EachStep hubCallStep AtomicAt start calls ↔ EachStep hubCallStep FedAt start calls) := by
  intro start
  refine ⟨fun call => atomicAt_iff (hubInv_calls maxSubs calls).wf call, fun h => ?_, fun h => ?_⟩
  · have hinv := h.with_inv (P := HubInv) (fun h call hinv _ => hubCallStep_inv h call hinv)
      (hubInv_create maxSubs)
    exact hinv.mono fun h call hstep => (atomicAt_iff hstep.1.wf call).mp hstep.2
  · have hinv := h.with_inv (P := HubInv) (fun h call hinv _ => hubCallStep_inv h call hinv)
      (hubInv_create maxSubs)
    exact hinv.mono fun h call hstep => (atomicAt_iff hstep.1.wf call).mpr hstep.2

/-- A broadcast of the event `n`. -/
def announceDoor (n : ℕ) (memory : Bool) : HubCall :=
  .hub (.broadcast (bytes "net") (bytes "door") (bytes "put") (some (decimal n)) none) fun _ => memory

/-- Eight broadcasts fill the queue of slot 0. -/
def eightAnnounced : List HubCall :=
  .hub (.subscribe 0) (fun _ => true) :: (List.range 8).map fun n => announceDoor n true

/-- The ninth broadcast finds no memory: the first message is gone, and the new one is not there. -/
theorem not_atomicAt_eightAnnounced :
    let h := runFrom hubCallStep (edgeWsHubCreate 1) eightAnnounced
    ¬AtomicAt h (announceDoor 8 false) ∧
      (hubCallStep h (announceDoor 8 false)).queue 0 = (h.queue 0).map List.tail := by
  refine ⟨fun hatomic => ?_, by decide +kernel⟩
  have hpush := (hatomic _ rfl).2 0
  exact absurd hpush (by decide +kernel)

end Edgehost
