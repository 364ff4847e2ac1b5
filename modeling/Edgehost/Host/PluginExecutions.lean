import Edgehost.Common.Runs
import Edgehost.Host.OpenaiRuns
import Edgehost.Host.PluginRequests

/-!
# Executions of upstream requests over whole runs

`edge_plugin_host_finish_pending_sync` executes the request that was accepted last against the
network, and then completes it. The request and its id stay in the host when they have been executed,
and the call does not ask whether anything still waits for them.

* `Outstanding` says, of the host's log, that an id was accepted and has been neither executed nor ended
  since. `Tracked` ties the pending table to it.
* `always_executedOnce_iff`: requests are executed while they are outstanding, and so at most once,
  exactly along the runs whose calls to finish find the request in the table.
-/

namespace Edgehost

variable {P : Type*} {υ : Type*}

/-! ## The log -/

/-- Nothing is to be executed for the id after the act. -/
def HostEvent.Finishes (id : UInt64) : HostEvent P → Prop
  | .executed id' => id' = id
  | .ended id' => id' = id
  | _ => False

/-- The id was accepted, and has been neither executed nor ended since. -/
def Outstanding (log : List (HostEvent P)) (id : UInt64) : Prop :=
  ∃ earlier p slot later, log = earlier ++ .handedOut id p slot :: later ∧
    ∀ ev ∈ later, ¬ev.Finishes id

/-- Only requests that are outstanding are executed. -/
def ExecutedOnce (log : List (HostEvent P)) : Prop :=
  ∀ before id after, log = before ++ .executed id :: after → Outstanding before id

theorem outstanding_snoc {log : List (HostEvent P)} {ev : HostEvent P} {id : UInt64} :
    Outstanding (log ++ [ev]) id ↔
      ev.handedId = some id ∨ Outstanding log id ∧ ¬ev.Finishes id := by
  constructor
  · rintro ⟨earlier, p, slot, later, heq, hlater⟩
    rcases List.eq_nil_or_concat later with rfl | ⟨later, last, rfl⟩
    · obtain ⟨-, hev⟩ := List.append_inj' heq rfl
      exact .inl (congrArg HostEvent.handedId (List.singleton_inj.mp hev))
    · rw [List.concat_eq_append, ← List.cons_append, ← List.append_assoc] at heq
      obtain ⟨hlog, hev⟩ := List.append_inj' heq rfl
      obtain rfl := List.singleton_inj.mp hev
      simp only [List.concat_eq_append, List.mem_append, List.mem_singleton] at hlater
      exact .inr ⟨⟨earlier, p, slot, later, hlog, fun ev hev => hlater ev (.inl hev)⟩,
        hlater _ (.inr rfl)⟩
  · rintro (hid | ⟨⟨earlier, p, slot, later, rfl, hlater⟩, hev⟩)
    · cases ev with
      | handedOut id' p slot =>
        obtain rfl := Option.some.inj hid
        exact ⟨log, p, slot, [], rfl, fun _ h => absurd h List.not_mem_nil⟩
      | _ => cases hid
    · refine ⟨earlier, p, slot, later ++ [ev], by simp, fun ev' hev' => ?_⟩
      rcases List.mem_append.mp hev' with hev' | hev'
      · exact hlater ev' hev'
      · exact List.mem_singleton.mp hev' ▸ hev

/-- Acts that hand nothing out only finish requests. -/
theorem outstanding_append {log evs : List (HostEvent P)} {id : UInt64}
    (hids : ∀ ev ∈ evs, ev.handedId = none) :
    Outstanding (log ++ evs) id ↔ Outstanding log id ∧ ∀ ev ∈ evs, ¬ev.Finishes id := by
  induction evs generalizing log with
  | nil => simp
  | cons ev evs ih =>
    rw [List.append_cons, ih fun ev' hev' => hids ev' (List.mem_cons_of_mem ev hev'), outstanding_snoc,
      hids ev List.mem_cons_self, List.forall_mem_cons]
    simp [and_assoc]

theorem executedOnce_snoc {log : List (HostEvent P)} {ev : HostEvent P} :
    ExecutedOnce (log ++ [ev]) ↔
      ExecutedOnce log ∧ ∀ id, ev = .executed id → Outstanding log id := by
  constructor
  · intro h
    refine ⟨fun before id after heq => ?_, ?_⟩
    · exact h before id (after ++ [ev]) (by rw [heq]; simp)
    · rintro id rfl
      exact h log id [] rfl
  · rintro ⟨hlog, hev⟩ before id after heq
    rcases List.eq_nil_or_concat after with rfl | ⟨after, last, rfl⟩
    · obtain ⟨rfl, hlast⟩ := List.append_inj' heq rfl
      exact hev id (List.singleton_inj.mp hlast)
    · rw [List.concat_eq_append, ← List.cons_append, ← List.append_assoc] at heq
      exact hlog before id after (List.append_inj' heq rfl).1

/-- Acts without an execution do not matter to the law. -/
theorem executedOnce_append {log evs : List (HostEvent P)} (hno : ∀ id, .executed id ∉ evs) :
    ExecutedOnce (log ++ evs) ↔ ExecutedOnce log := by
  induction evs generalizing log with
  | nil => rw [List.append_nil]
  | cons ev evs ih =>
    have hev : ∀ id, ev ≠ .executed id := fun id heq => hno id (heq ▸ List.mem_cons_self)
    rw [List.append_cons, ih fun id hmem => hno id (List.mem_cons_of_mem ev hmem), executedOnce_snoc]
    exact ⟨And.left, fun h => ⟨h, fun id heq => absurd heq (hev id)⟩⟩

theorem outstanding_nil (id : UInt64) : ¬Outstanding ([] : List (HostEvent P)) id := by
  rintro ⟨earlier, p, slot, later, heq, -⟩
  simp at heq

theorem executedOnce_nil : ExecutedOnce ([] : List (HostEvent P)) := by
  intro before id after heq
  simp at heq

/-! ## The table -/

/-- The table holds the entries of the outstanding requests. -/
structure Tracked (t : EdgePendingTable P) (log : List (HostEvent P)) : Prop where
  wellFormed : t.WellFormed
  outstanding : ∀ id, (t.outbound id).isSome ↔ Outstanding log id

namespace Tracked

variable {t : EdgePendingTable P} {log : List (HostEvent P)}

theorem create (capacity : ℕ) : Tracked (edgePendingCreate (P := P) capacity) [] where
  wellFormed := EdgePendingTable.wellFormed_create capacity
  outstanding id := by
    rw [EdgePendingTable.outbound_create]
    exact iff_of_false Bool.false_ne_true (outstanding_nil id)

theorem accept (h : Tracked t log) {slot : UInt32} {id : UInt64} (hacc : t.Accepts slot id)
    (p : P) (tag : UInt64) (timeout : UInt32) (started : UInt64) (sub : Option Bytes) :
    Tracked (edgePendingInsert t slot id (some p) tag timeout started sub).1
      (log ++ [.handedOut id p slot]) := by
  obtain ⟨hwf, hout⟩ := h.wellFormed.insert p tag timeout started sub hacc
  refine ⟨hwf, fun id' => ?_⟩
  rw [hout, outstanding_snoc]
  by_cases hid : id = id'
  · subst hid
    simp [HostEvent.handedId]
  · rw [if_neg hid, h.outstanding id']
    simp [hid, HostEvent.Finishes, HostEvent.handedId]

/-- Acts that concern no entry of the table. -/
theorem keep (h : Tracked t log) {evs : List (HostEvent P)}
    (hids : ∀ ev ∈ evs, ev.handedId = none)
    (hno : ∀ id, (t.outbound id).isSome → ∀ ev ∈ evs, ¬ev.Finishes id) : Tracked t (log ++ evs) where
  wellFormed := h.wellFormed
  outstanding id := by
    rw [outstanding_append hids, ← h.outstanding id]
    exact ⟨fun hsome => ⟨hsome, hno id hsome⟩, And.left⟩

/-- An entry is released as its request, and no other, is finished. -/
theorem release (h : Tracked t log) {evs : List (HostEvent P)} {i : ℕ} {e : EdgePendingEntry P}
    (he : t.slots[i]? = some e) (hused : e.used = true) (hids : ∀ ev ∈ evs, ev.handedId = none)
    (hfin : ∀ id, (∃ ev ∈ evs, ev.Finishes id) ↔ e.outboundId = id) :
    Tracked (edgePendingRelease t i) (log ++ evs) := by
  obtain ⟨hwf, hout⟩ := h.wellFormed.release he hused
  refine ⟨hwf, fun id => ?_⟩
  have hnone : (∀ ev ∈ evs, ¬ev.Finishes id) ↔ e.outboundId ≠ id := by
    rw [Ne, ← hfin id]
    simp
  rw [hout, outstanding_append hids, hnone]
  by_cases hid : e.outboundId = id
  · simp [hid]
  · rw [if_neg hid, h.outstanding id]
    simp [hid]

end Tracked

/-! ## The calls -/

/-- The host and the plugins' memory. -/
structure OutboundWorld (P υ : Type*) where
  host : EdgePluginHost P
  mem : υ

/-- A new host. -/
def outboundStart (maxPending : ℕ) (state : Option StateStore) (mem : υ) : OutboundWorld P υ :=
  ⟨edgePluginHostCreate maxPending state, mem⟩

/-- One call of the host. -/
def outboundStep (vtbl : P → Option (EdgePluginVtbl υ)) (w : OutboundWorld P υ) :
    HostCall P → OutboundWorld P υ
  | .dispatch plugin req res =>
    let r := edgePluginHostDispatchHttp vtbl w.host w.mem plugin req res
    ⟨r.host, r.mem⟩
  | .complete upstream res =>
    let r := edgePluginHostCompleteOutbound vtbl w.host w.mem upstream res
    ⟨r.host, r.mem⟩
  | .cancel slot => ⟨(edgePluginHostCancelInbound w.host slot).1, w.mem⟩
  | .finish net alloc allowBlockingDns maxUpstreamBody res =>
    let r := edgePluginHostFinishPendingSync vtbl net alloc w.host w.mem allowBlockingDns
      maxUpstreamBody res
    ⟨r.host, r.mem⟩

/-- A call to finish that executes a request finds its entry in the table. -/
def FinishesAwaited (w : OutboundWorld P υ) : HostCall P → Prop
  | .finish _ alloc _ _ _ =>
    w.host.hasLastReq → w.host.lastOutboundId ≠ 0 → alloc →
      (edgePendingFindOutbound w.host.pending w.host.lastOutboundId).isSome
  | _ => True

/-- The invariant of a host between calls. -/
structure OutboundInv (h : EdgePluginHost P) : Prop where
  tracked : Tracked h.pending h.log
  idle : h.activeInOnHttp = false

/-! ## What the calls do -/

/-- The host afterwards: the entry that was found, if any, is released, its request and no other is
finished, and nothing was handed out or executed. -/
structure Settles (h h' : EdgePluginHost P) (found : Option (ℕ × EdgePendingEntry P)) : Prop where
  idle : h'.activeInOnHttp = h.activeInOnHttp
  pending : h'.pending = match found with
    | none => h.pending
    | some (i, _) => edgePendingRelease h.pending i
  log : ∃ evs, h'.log = h.log ++ evs ∧ (∀ ev ∈ evs, ev.handedId = none) ∧
    (∀ id, .executed id ∉ evs) ∧
      ∀ id, (∃ ev ∈ evs, ev.Finishes id) ↔ ∃ ie ∈ found, ie.2.outboundId = id

section Settling

variable {vtbl : P → Option (EdgePluginVtbl υ)} {h h' : EdgePluginHost P}

theorem Settles.refl (h : EdgePluginHost P) : Settles h h none :=
  ⟨rfl, rfl, [], (List.append_nil _).symm, by simp, by simp, by simp⟩

/-- A release of the entry, with the end of its request in the log. -/
theorem Settles.released (h : EdgePluginHost P) (i : ℕ) (e : EdgePendingEntry P) :
    Settles h (releaseEntry h i e) (some (i, e)) :=
  ⟨rfl, rfl, [.ended e.outboundId], rfl, by simp [HostEvent.handedId], by simp,
    by simp [HostEvent.Finishes]⟩

theorem complete_settles (hidle : h.activeInOnHttp = false) (mem : υ)
    (upstream : EdgeHttpClientResult) (res : EdgeHttpRes) :
    Settles h (edgePluginHostCompleteOutbound vtbl h mem upstream res).host
      (edgePendingFindOutbound h.pending upstream.outboundId) := by
  cases hfind : edgePendingFindOutbound h.pending upstream.outboundId with
  | none =>
    rw [complete_missing hfind]
    exact .refl h
  | some ie =>
    obtain ⟨i, e⟩ := ie
    cases hh : completeHandler vtbl e with
    | none =>
      rw [(complete_unhandled mem res hfind hh).1]
      exact .released h i e
    | some f =>
      obtain ⟨p, hp⟩ := plugin_of_handler hh
      have hcalled : (h.note (.completeCalled upstream.outboundId p)).activeInOnHttp = false := hidle
      rw [(complete_handled mem res hfind hh hp).1, callOnHttpComplete,
        run_keeps (f upstream res mem) (.inl hcalled)]
      refine ⟨rfl, rfl, [.completeCalled upstream.outboundId p, .ended e.outboundId], ?_,
        by simp [HostEvent.handedId], by simp, by simp [HostEvent.Finishes]⟩
      exact List.append_assoc ..

theorem cancel_settles (h : EdgePluginHost P) (slot : UInt32) :
    Settles h (edgePluginHostCancelInbound h slot).1 (edgePendingFindInbound h.pending slot) := by
  rw [edgePluginHostCancelInbound, releaseInbound, edgePendingReleaseInbound]
  cases edgePendingFindInbound h.pending slot with
  | none => exact ⟨rfl, rfl, [], rfl, by simp, by simp, by simp⟩
  | some ie => exact .released h ie.1 ie.2

theorem releaseOutbound_settles (h : EdgePluginHost P) (id : UInt64) :
    Settles h (releaseOutbound h id).1 (edgePendingFindOutbound h.pending id) := by
  rw [releaseOutbound, edgePendingReleaseOutbound]
  cases edgePendingFindOutbound h.pending id with
  | none => exact ⟨rfl, rfl, [], rfl, by simp, by simp, by simp⟩
  | some ie => exact .released h ie.1 ie.2

/-- What settles an entry of the table keeps the table tracked. -/
theorem Settles.tracked {found : Option (ℕ × EdgePendingEntry P)} (hs : Settles h h' found)
    (ht : Tracked h.pending h.log)
    (hfound : ∀ ie ∈ found, h.pending.slots[ie.1]? = some ie.2 ∧ ie.2.used = true) :
    Tracked h'.pending h'.log := by
  obtain ⟨-, hpend, evs, hlog, hids, -, hfin⟩ := hs
  rw [hpend, hlog]
  cases found with
  | none =>
    refine ht.keep hids fun id _ ev hev hev' => ?_
    obtain ⟨ie, hie, -⟩ := (hfin id).mp ⟨ev, hev, hev'⟩
    cases hie
  | some ie =>
    obtain ⟨he, hused⟩ := hfound ie rfl
    exact ht.release he hused hids fun id => (hfin id).trans (by simp)

/-- The same when the request has been executed before. -/
theorem Settles.tracked_executed {id : UInt64} (hid : id ≠ 0)
    (hs : Settles (h.note (.executed id)) h' (edgePendingFindOutbound h.pending id))
    (ht : Tracked h.pending h.log) : Tracked h'.pending h'.log := by
  obtain ⟨-, hpend, evs, hlog, hids, -, hfin⟩ := hs
  have hids' : ∀ ev ∈ HostEvent.executed id :: evs, ev.handedId = none :=
    List.forall_mem_cons.mpr ⟨rfl, hids⟩
  rw [hpend, hlog, EdgePluginHost.note, List.append_assoc, List.singleton_append]
  cases hfind : edgePendingFindOutbound h.pending id with
  | none =>
    have hnone : h.pending.outbound id = none := by
      rw [edgePendingFindOutbound, if_neg hid] at hfind
      rw [EdgePendingTable.outbound, SlotView.lookup_eq_none_iff]
      exact SlotView.locate_eq_none.mp hfind
    refine ht.keep hids' fun id' hsome ev hev hev' => ?_
    rcases List.mem_cons.mp hev with rfl | hev
    · obtain rfl : id = id' := hev'
      rw [hnone] at hsome
      cases hsome
    · obtain ⟨ie, hie, -⟩ := (hfin id').mp ⟨ev, hev, hev'⟩
      rw [hfind] at hie
      cases hie
  | some ie =>
    obtain ⟨he, hused, hout, -⟩ := EdgePendingTable.findOutbound_eq_some hfind
    refine ht.release he hused hids' fun id' => ?_
    have hcons : (∃ ev ∈ HostEvent.executed id :: evs, ev.Finishes id') ↔
        id = id' ∨ ∃ ev ∈ evs, ev.Finishes id' := by
      simp [HostEvent.Finishes]
    rw [hcons, hfin id', hfind]
    simp [hout]

end Settling

/-- A request is executed by the call: one was kept, it has an id, and the buffer for the answer can be
allocated. -/
def Executes (h : EdgePluginHost P) (alloc : Bool) : Prop :=
  h.hasLastReq = true ∧ h.lastOutboundId ≠ 0 ∧ alloc = true

/-- **What a call to finish does**: it executes a request and settles its entry, or it only settles an
entry. -/
theorem finish_settles (vtbl : P → Option (EdgePluginVtbl υ)) {h : EdgePluginHost P}
    (hidle : h.activeInOnHttp = false) (net : Network) (alloc : Bool) (mem : υ)
    (allowBlockingDns : Bool) (maxUpstreamBody : ℕ) (res : EdgeHttpRes) :
    let h' := (edgePluginHostFinishPendingSync vtbl net alloc h mem allowBlockingDns maxUpstreamBody
      res).host
    Executes h alloc ∧ Settles (h.note (.executed h.lastOutboundId)) h'
        (edgePendingFindOutbound h.pending h.lastOutboundId) ∨
      ¬Executes h alloc ∧ (Settles h h' none ∨
        Settles h h' (edgePendingFindOutbound h.pending h.lastOutboundId)) := by
  intro h'
  simp only [h', edgePluginHostFinishPendingSync, edgePluginHostLastClientReq, Executes]
  by_cases hreq : h.hasLastReq = true
  case neg =>
    simp only [hreq, Bool.not_false, if_true, Bool.false_eq_true, false_and, not_false_eq_true, true_and,
      false_or]
    exact .inl (.refl h)
  simp only [hreq, Bool.not_true, Bool.false_eq_true, if_false, true_and]
  by_cases hid : h.lastOutboundId = 0
  · rw [if_pos hid]
    exact .inr ⟨fun hexec => hexec.1 hid, .inl (.refl h)⟩
  rw [if_neg hid]
  cases alloc with
  | true =>
    have hexecuted : (h.note (.executed h.lastOutboundId)).activeInOnHttp = false := hidle
    exact .inl ⟨⟨hid, rfl⟩, complete_settles hexecuted mem _ _⟩
  | false => exact .inr ⟨fun hexec => absurd hexec.2 (by simp), .inr (releaseOutbound_settles h _)⟩

/-! ## The calls keep the invariant -/

section Calls

variable {vtbl : P → Option (EdgePluginVtbl υ)} {h : EdgePluginHost P}

/-- What a dispatch leaves in the log: the ids it hands out, and that it is over. -/
theorem outboundInv_dispatch (hh : OutboundInv h) (mem : υ) (plugin : Option P) (req : EdgeHttpReq)
    (res : EdgeHttpRes) :
    let h' := (edgePluginHostDispatchHttp vtbl h mem plugin req res).host
    OutboundInv h' ∧ ∃ evs, h'.log = h.log ++ evs ∧ ∀ id, .executed id ∉ evs := by
  have hrefused : (httpHandler vtbl plugin = none ∨
      (edgePendingFindInbound h.pending req.inboundSlot).isSome) →
      let h' := (edgePluginHostDispatchHttp vtbl h mem plugin req res).host
      OutboundInv h' ∧ ∃ evs, h'.log = h.log ++ evs ∧ ∀ id, .executed id ∉ evs := by
    intro hno
    rw [(dispatch_refused vtbl h mem plugin req res hno).1]
    exact ⟨hh, [], (List.append_nil _).symm, by simp⟩
  cases hhandler : httpHandler vtbl plugin with
  | none => exact hrefused (.inl hhandler)
  | some ph =>
    obtain ⟨p, onHttp⟩ := ph
    cases hfind : edgePendingFindInbound h.pending req.inboundSlot with
    | some e => exact hrefused (.inr (by rw [hfind]; rfl))
    | none =>
      rw [dispatch_ran hhandler hfind]
      generalize onHttp req res mem = c
      have hspec := (afterOnHttp_spec (leaveOnHttp (c.run apiAnswer
        (enterOnHttp h p req.inboundSlot)).1 req.inboundSlot) (c.run apiAnswer
          (enterOnHttp h p req.inboundSlot)).2 req.inboundSlot).2.2
      have hlog := run_log c (enterOnHttp h p req.inboundSlot)
      have heff := run_effect c (enterOnHttp h p req.inboundSlot) rfl
      rw [handedOutEvents] at hlog
      generalize (c.run apiAnswer (enterOnHttp h p req.inboundSlot)).1 = ran at hspec hlog heff ⊢
      generalize hs : ran.dispatchState = s,
        acceptedIds c (enterOnHttp h p req.inboundSlot) = ids at heff hlog
      have hpend : ran.pending = s.pending := congrArg DispatchState.pending hs
      have hstarted : ran.clientReqStarted = s.clientReqStarted :=
        congrArg DispatchState.clientReqStarted hs
      have hdone : ∀ ev ∈ [HostEvent.dispatched (P := P) req.inboundSlot], ev.handedId = none := by
        simp [HostEvent.handedId]
      have hquiet : ∀ id (t : EdgePendingTable P), (t.outbound id).isSome →
          ∀ ev ∈ [HostEvent.dispatched (P := P) req.inboundSlot], ¬ev.Finishes id := by
        simp [HostEvent.Finishes]
      -- The callback made no accepted request, or exactly one.
      cases heff with
      | quiet next hnext =>
        have hleft := hspec (Or.inl (by show edgePendingFindInbound ran.pending _ = none; rwa [hpend]))
        rw [hleft]
        have hlog' : (leaveOnHttp ran req.inboundSlot).log = h.log ++ [.dispatched req.inboundSlot] :=
          congrArg (· ++ [HostEvent.dispatched req.inboundSlot]) (hlog.trans (List.append_nil _))
        refine ⟨⟨?_, rfl⟩, _, hlog', by simp⟩
        rw [hlog', show (leaveOnHttp ran req.inboundSlot).pending = h.pending from hpend]
        exact hh.tracked.keep hdone fun id => hquiet id _
      | accepted next hnext creq q hq hacc =>
        obtain rfl : p = q := Option.some.inj hq
        rw [hspec (Or.inr hstarted)]
        have hlog' : (leaveOnHttp ran req.inboundSlot).log =
            h.log ++ [.handedOut _ p req.inboundSlot] ++ [.dispatched req.inboundSlot] :=
          congrArg (· ++ [HostEvent.dispatched req.inboundSlot]) hlog
        refine ⟨⟨?_, rfl⟩, _, hlog'.trans (List.append_assoc ..), by simp⟩
        rw [hlog', show (leaveOnHttp ran req.inboundSlot).pending = _ from hpend]
        exact (hh.tracked.accept hacc p _ _ _ _).keep hdone fun id => hquiet id _

/-- A call that settles what was found keeps the invariant. -/
theorem OutboundInv.settled (hh : OutboundInv h) {h' : EdgePluginHost P}
    {found : Option (ℕ × EdgePendingEntry P)} (hs : Settles h h' found)
    (hfound : ∀ ie ∈ found, h.pending.slots[ie.1]? = some ie.2 ∧ ie.2.used = true) : OutboundInv h' :=
  ⟨hs.tracked hh.tracked hfound, hs.idle.trans hh.idle⟩

theorem foundOutbound {t : EdgePendingTable P} {id : UInt64} :
    ∀ ie ∈ edgePendingFindOutbound t id, t.slots[ie.1]? = some ie.2 ∧ ie.2.used = true := fun _ hie =>
  have hfound := EdgePendingTable.findOutbound_eq_some hie
  ⟨hfound.1, hfound.2.1⟩

theorem foundInbound {t : EdgePendingTable P} {slot : UInt32} :
    ∀ ie ∈ edgePendingFindInbound t slot, t.slots[ie.1]? = some ie.2 ∧ ie.2.used = true := fun _ hie =>
  have hfound := EdgePendingTable.findInbound_eq_some hie
  ⟨hfound.1, hfound.2.1⟩

theorem outboundInv_finish (hh : OutboundInv h) (net : Network) (alloc : Bool) (mem : υ)
    (allowBlockingDns : Bool) (maxUpstreamBody : ℕ) (res : EdgeHttpRes) :
    OutboundInv (edgePluginHostFinishPendingSync vtbl net alloc h mem allowBlockingDns maxUpstreamBody
      res).host := by
  rcases finish_settles vtbl hh.idle net alloc mem allowBlockingDns maxUpstreamBody res with
    ⟨hexec, hs⟩ | ⟨-, hs | hs⟩
  · exact ⟨hs.tracked_executed hexec.2.1 hh.tracked, hs.idle.trans hh.idle⟩
  · exact hh.settled hs (by simp)
  · exact hh.settled hs foundOutbound

end Calls

/-- Every call of the host keeps the invariant. -/
theorem outboundInv_step {vtbl : P → Option (EdgePluginVtbl υ)} (w : OutboundWorld P υ)
    (call : HostCall P) (hw : OutboundInv w.host) : OutboundInv (outboundStep vtbl w call).host := by
  cases call with
  | dispatch plugin req res => exact (outboundInv_dispatch hw w.mem plugin req res).1
  | complete upstream res => exact hw.settled (complete_settles hw.idle w.mem upstream res) foundOutbound
  | cancel slot => exact hw.settled (cancel_settles w.host slot) foundInbound
  | finish net alloc allowBlockingDns maxUpstreamBody res =>
    exact outboundInv_finish hw net alloc w.mem allowBlockingDns maxUpstreamBody res

/-! ## Executions -/

theorem Settles.executedOnce_iff {h h' : EdgePluginHost P} {found : Option (ℕ × EdgePendingEntry P)}
    (hs : Settles h h' found) : ExecutedOnce h'.log ↔ ExecutedOnce h.log := by
  obtain ⟨-, -, evs, hlog, -, hno, -⟩ := hs
  rw [hlog, executedOnce_append hno]

/-- **One call keeps the law exactly when it finishes nothing that is not awaited.** -/
theorem executedOnce_step_iff {vtbl : P → Option (EdgePluginVtbl υ)} (w : OutboundWorld P υ)
    (call : HostCall P) (hw : OutboundInv w.host) (honce : ExecutedOnce w.host.log) :
    ExecutedOnce (outboundStep vtbl w call).host.log ↔ FinishesAwaited w call := by
  cases call with
  | dispatch plugin req res =>
    obtain ⟨-, evs, hlog, hno⟩ := @outboundInv_dispatch P υ vtbl w.host hw w.mem plugin req res
    refine iff_of_true ?_ trivial
    show ExecutedOnce (edgePluginHostDispatchHttp vtbl w.host w.mem plugin req res).host.log
    rw [hlog, executedOnce_append hno]
    exact honce
  | complete upstream res =>
    exact iff_of_true ((complete_settles hw.idle w.mem upstream res).executedOnce_iff.mpr honce) trivial
  | cancel slot => exact iff_of_true ((cancel_settles w.host slot).executedOnce_iff.mpr honce) trivial
  | finish net alloc allowBlockingDns maxUpstreamBody res =>
    rcases finish_settles vtbl hw.idle net alloc w.mem allowBlockingDns maxUpstreamBody res with
      ⟨hexec, hs⟩ | ⟨hexec, hs⟩
    · have hfound : (edgePendingFindOutbound w.host.pending w.host.lastOutboundId).isSome ↔
          Outstanding w.host.log w.host.lastOutboundId := by
        rw [← hw.tracked.outstanding, edgePendingFindOutbound, if_neg hexec.2.1,
          EdgePendingTable.outbound, Option.isSome_iff_ne_none, Option.isSome_iff_ne_none, Ne, Ne,
          SlotView.locate_eq_none, SlotView.lookup_eq_none_iff]
      refine hs.executedOnce_iff.trans (executedOnce_snoc.trans ?_)
      rw [FinishesAwaited, hfound]
      exact ⟨fun h _ _ _ => h.2 _ rfl, fun h => ⟨honce, fun id heq => by
        obtain rfl := HostEvent.executed.inj heq
        exact h hexec.1 hexec.2.1 hexec.2.2⟩⟩
    · have hkeep : ExecutedOnce (outboundStep vtbl w
          (.finish net alloc allowBlockingDns maxUpstreamBody res)).host.log := by
        rcases hs with hs | hs <;> exact hs.executedOnce_iff.mpr honce
      exact iff_of_true hkeep fun hreq hid halloc => absurd ⟨hreq, hid, halloc⟩ hexec

/-- **Requests are executed while they are outstanding exactly along the runs whose calls to finish
are awaited.** -/
theorem always_executedOnce_iff (vtbl : P → Option (EdgePluginVtbl υ)) (maxPending : ℕ)
    (state : Option StateStore) (mem : υ) (calls : List (HostCall P)) :
    Always (outboundStep vtbl) (fun w => ExecutedOnce w.host.log) (outboundStart maxPending state mem)
        calls ↔
      EachStep (outboundStep vtbl) FinishesAwaited (outboundStart maxPending state mem) calls := by
  have hstart : OutboundInv (outboundStart (P := P) maxPending state mem).host :=
    ⟨Tracked.create _, rfl⟩
  exact always_iff_eachStep (fun w call hw => outboundInv_step w call hw) executedOnce_step_iff hstart
    executedOnce_nil calls

/-! ### A request that is finished twice -/

/-- A request is dispatched and finished, and finished again. -/
def finishTwiceCalls : List (HostCall Unit) :=
  [.dispatch (some ()) slotThreeReq emptyRes, .finish (answering []) true false 0 emptyRes,
    .finish (answering []) true false 0 emptyRes]

/-- The second call executes the request again, although nothing waits for it. -/
theorem not_always_executedOnce_twice :
    ¬Always (outboundStep fun _ => some (askThenReturn EDGE_PLUGIN_PENDING))
      (fun w => ExecutedOnce w.host.log) (outboundStart 1 none ()) finishTwiceCalls := by
  intro h
  have hlog : (runFrom (outboundStep fun _ => some (askThenReturn EDGE_PLUGIN_PENDING))
      (outboundStart 1 none ()) finishTwiceCalls).host.log =
        [.handedOut 1 () 3, .dispatched 3, .executed 1, .ended 1] ++ .executed 1 :: [] := by
    decide +kernel
  have hout : Outstanding ([.handedOut 1 () 3, .dispatched 3, .executed 1] ++ [.ended 1]) 1 :=
    h.last _ _ _ hlog
  rcases outstanding_snoc.mp hout with heq | ⟨-, hends⟩
  · cases heq
  · exact hends rfl

end Edgehost
