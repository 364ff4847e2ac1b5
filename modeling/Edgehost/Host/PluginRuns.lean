import Edgehost.Common.Runs
import Edgehost.Host.PluginDispatch

/-!
# Upstream requests over whole runs of the plugin host

A run is any list of dispatches, completions and cancellations, with any plugins. What happens to
upstream requests is what the host writes into its log on the way.

* `Awaits` says, of a log, that an id was handed out to a plugin for a slot, that the dispatch has
  returned, and that nothing has ended the request since.
* `HostInv` ties the table to the log: every entry awaits its completion.
* `pluginRun_completesOnce` is the result: `on_http_complete` is called on a request that awaits it,
  at most once for each time the id was handed out, and only on the plugin that asked for it.
-/

namespace Edgehost

variable {P : Type*} {υ ρ : Type*}

/-! ## The log -/

/-- The act ends the request `id`, or starts to. -/
def HostEvent.Ends (id : UInt64) : HostEvent P → Prop
  | .completeCalled id' _ => id' = id
  | .ended id' => id' = id
  | _ => False

def HostEvent.isCall (id : UInt64) : HostEvent P → Bool
  | .completeCalled id' _ => id' = id
  | _ => false

def HostEvent.handedId : HostEvent P → Option UInt64
  | .handedOut id _ _ => some id
  | _ => none

/-- The ids handed out, in order. -/
def handedIds (trace : List (HostEvent P)) : List UInt64 := trace.filterMap HostEvent.handedId

/-- The number of calls of `on_http_complete` for an id. -/
def completeCalls (id : UInt64) (trace : List (HostEvent P)) : ℕ :=
  trace.countP (HostEvent.isCall id)

/-- The request `id` of plugin `p` was dispatched for `slot`, and nothing has ended it since. -/
def Awaits (trace : List (HostEvent P)) (id : UInt64) (p : P) (slot : UInt32) : Prop :=
  ∃ earlier later, trace = earlier ++ .handedOut id p slot :: later ∧ .dispatched slot ∈ later ∧
    ∀ ev ∈ later, ¬ ev.Ends id

@[simp] theorem handedIds_append (xs ys : List (HostEvent P)) :
    handedIds (xs ++ ys) = handedIds xs ++ handedIds ys := List.filterMap_append

@[simp] theorem completeCalls_append (id : UInt64) (xs ys : List (HostEvent P)) :
    completeCalls id (xs ++ ys) = completeCalls id xs + completeCalls id ys := List.countP_append

/-- Events without this call are not split at it. -/
theorem ne_split_of_not_mem {evs before after : List (HostEvent P)} {id : UInt64} {p : P}
    (hno : .completeCalled id p ∉ evs) : evs ≠ before ++ .completeCalled id p :: after := fun heq =>
  hno (heq ▸ List.mem_append_right before List.mem_cons_self)

theorem completeCalls_eq_zero {evs : List (HostEvent P)} {id : UInt64}
    (h : ∀ ev ∈ evs, ¬ ev.Ends id) : completeCalls id evs = 0 := by
  rw [completeCalls, List.countP_eq_zero]
  intro ev hev hcall
  cases ev with
  | completeCalled id' p => exact h _ hev (of_decide_eq_true hcall : id' = id)
  | _ => exact absurd hcall Bool.false_ne_true

/-- Events that do not end a request leave it awaited. -/
theorem Awaits.append {trace evs : List (HostEvent P)} {id : UInt64} {p : P} {slot : UInt32}
    (h : Awaits trace id p slot) (hevs : ∀ ev ∈ evs, ¬ ev.Ends id) :
    Awaits (trace ++ evs) id p slot := by
  obtain ⟨earlier, later, rfl, hdisp, hlater⟩ := h
  refine ⟨earlier, later ++ evs, by simp, by simp [hdisp], fun ev hev => ?_⟩
  rcases List.mem_append.mp hev with hev | hev
  · exact hlater ev hev
  · exact hevs ev hev

theorem Awaits.mem_handedIds {trace : List (HostEvent P)} {id : UInt64} {p : P} {slot : UInt32}
    (h : Awaits trace id p slot) : id ∈ handedIds trace := by
  obtain ⟨earlier, later, rfl, -⟩ := h
  simp [handedIds, HostEvent.handedId]

/-- Every call of `on_http_complete` in the trace was of a request that awaited it. -/
def CallsAwaited (trace : List (HostEvent P)) : Prop :=
  ∀ before id p after, trace = before ++ .completeCalled id p :: after →
    ∃ slot, Awaits before id p slot

theorem CallsAwaited.append {trace evs : List (HostEvent P)} (h : CallsAwaited trace)
    (hevs : ∀ before id p after, evs = before ++ .completeCalled id p :: after →
      ∃ slot, Awaits (trace ++ before) id p slot) : CallsAwaited (trace ++ evs) := by
  intro before id p after heq
  rcases List.append_eq_append_iff.mp heq with ⟨as, rfl, has⟩ | ⟨bs, rfl, hbs⟩
  · exact hevs as id p after has
  · cases bs with
    | nil =>
      have hfirst := hevs [] id p after (by simpa using hbs.symm)
      simpa using hfirst
    | cons b bs =>
      obtain ⟨rfl, -⟩ := List.cons_eq_cons.mp hbs
      exact h before id p bs rfl

/-! ## Worlds and steps -/

/-- The host and the plugins' memory. -/
structure PluginWorld (P υ : Type*) where
  host : EdgePluginHost P
  mem : υ

/-- A call of the host. -/
inductive PluginOp (P : Type*) where
  | dispatch (plugin : Option P) (req : EdgeHttpReq) (res : EdgeHttpRes)
  | complete (upstream : EdgeHttpClientResult) (res : EdgeHttpRes)
  | cancel (slot : UInt32)

/-- The handler that a completion calls for an entry. -/
def completeHandler (vtbl : P → Option (EdgePluginVtbl υ)) (e : EdgePendingEntry P) :=
  (e.plugin.bind vtbl).bind EdgePluginVtbl.onHttpComplete

/-- One call of the host. -/
def pluginStep (vtbl : P → Option (EdgePluginVtbl υ)) (w : PluginWorld P υ) :
    PluginOp P → PluginWorld P υ
  | .dispatch plugin req res =>
    let r := edgePluginHostDispatchHttp vtbl w.host w.mem plugin req res
    ⟨r.host, r.mem⟩
  | .complete upstream res =>
    let r := edgePluginHostCompleteOutbound vtbl w.host w.mem upstream res
    ⟨r.host, r.mem⟩
  | .cancel slot => ⟨(edgePluginHostCancelInbound w.host slot).1, w.mem⟩

/-- The world after `edge_plugin_host_create`. -/
def pluginStart (maxPending : ℕ) (state : Option StateStore) (mem : υ) : PluginWorld P υ :=
  ⟨edgePluginHostCreate maxPending state, mem⟩

/-! ## The invariant -/

/-- The ids 1 to `k`. -/
def firstIds (k : ℕ) : List UInt64 := (List.range k).map fun i => UInt64.ofNat (i + 1)

/-- What ties the host to its log. -/
structure HostInv (h : EdgePluginHost P) : Prop where
  wellFormed : h.pending.WellFormed
  idle : h.activeInOnHttp = false
  live : ∀ id e, h.pending.outbound id = some e →
    ∃ p, e.plugin = some p ∧ Awaits h.log id p e.inboundSlot
  balance : ∀ id, completeCalls id h.log + (if (h.pending.outbound id).isSome then 1 else 0)
    ≤ (handedIds h.log).count id
  called : CallsAwaited h.log
  numbered : (handedIds h.log).length < 2 ^ 64 →
    handedIds h.log = firstIds (handedIds h.log).length
  next : (handedIds h.log).length + 1 < 2 ^ 64 →
    h.nextOutboundId = UInt64.ofNat ((handedIds h.log).length + 1)

theorem hostInv_create (maxPending : ℕ) (state : Option StateStore) :
    HostInv (edgePluginHostCreate (P := P) maxPending state) := by
  have hnone : ∀ id, (edgePluginHostCreate (P := P) maxPending state).pending.outbound id = none :=
    EdgePendingTable.outbound_create _
  refine ⟨EdgePendingTable.wellFormed_create _, rfl, fun id e he => ?_, fun id => ?_, ?_, fun _ => rfl,
    fun _ => rfl⟩
  · exact absurd ((hnone id).symm.trans he) (by simp)
  · rw [hnone]
    exact le_rfl
  · intro before id p after heq
    exact absurd heq (by simp [edgePluginHostCreate])

theorem mem_firstIds {k : ℕ} {id : UInt64} (hk : k < 2 ^ 64) (h : id ∈ firstIds k) :
    0 < id.toNat ∧ id.toNat ≤ k := by
  obtain ⟨i, hi, rfl⟩ := List.mem_map.mp h
  have hi := List.mem_range.mp hi
  rw [UInt64.toNat_ofNat', Nat.mod_eq_of_lt (by omega)]
  omega

theorem firstIds_succ (k : ℕ) : firstIds (k + 1) = firstIds k ++ [UInt64.ofNat (k + 1)] := by
  simp [firstIds, List.range_succ]

theorem nodup_firstIds {k : ℕ} (hk : k < 2 ^ 64) : (firstIds k).Nodup := by
  refine (List.nodup_range).map_on fun i hi j hj heq => ?_
  have hi := List.mem_range.mp hi
  have hj := List.mem_range.mp hj
  have heq := congrArg UInt64.toNat heq
  rw [UInt64.toNat_ofNat', UInt64.toNat_ofNat', Nat.mod_eq_of_lt (by omega),
    Nat.mod_eq_of_lt (by omega)] at heq
  omega

section Steps

variable {h h' : EdgePluginHost P}

/-- As long as ids have not wrapped around, the next one is new: no entry carries it. -/
theorem HostInv.mintable (hh : HostInv h) (hk : (handedIds h.log).length + 1 < 2 ^ 64) :
    h.dispatchState.mintedId = UInt64.ofNat ((handedIds h.log).length + 1) ∧
      h.dispatchState.Mintable := by
  have hnat : (UInt64.ofNat ((handedIds h.log).length + 1)).toNat = (handedIds h.log).length + 1 := by
    rw [UInt64.toNat_ofNat', Nat.mod_eq_of_lt hk]
  have hminted : h.dispatchState.mintedId = UInt64.ofNat ((handedIds h.log).length + 1) := by
    show (if h.nextOutboundId = 0 then h.nextOutboundId + 1 else h.nextOutboundId) = _
    rw [hh.next hk, if_neg]
    intro h0
    rw [h0] at hnat
    exact absurd hnat (by simp)
  refine ⟨hminted, hh.wellFormed, ?_⟩
  rw [hminted]
  cases hout : h.dispatchState.pending.outbound
      (UInt64.ofNat ((handedIds h.log).length + 1)) with
  | none => rfl
  | some e =>
    obtain ⟨p, -, hawaits⟩ := hh.live _ e hout
    have hsub : handedIds h.log ⊆ firstIds (handedIds h.log).length := by
      rw [← hh.numbered (by omega)]
      exact List.Subset.refl _
    have hle := (mem_firstIds (by omega) (hsub hawaits.mem_handedIds)).2
    omega

/-- A step that leaves the table as it is and whose acts concern no request. -/
theorem HostInv.quiet (hh : HostInv h) {evs : List (HostEvent P)} (hlog : h'.log = h.log ++ evs)
    (hpend : h'.pending = h.pending) (hidle : h'.activeInOnHttp = false)
    (hnext : (handedIds h.log).length + 1 < 2 ^ 64 → h'.nextOutboundId = h.nextOutboundId)
    (hends : ∀ id, ∀ ev ∈ evs, ¬ ev.Ends id) (hids : handedIds evs = []) : HostInv h' where
  wellFormed := hpend ▸ hh.wellFormed
  idle := hidle
  live id e he := by
    obtain ⟨p, hp, hawaits⟩ := hh.live id e (hpend ▸ he)
    exact ⟨p, hp, hlog ▸ hawaits.append (hends id)⟩
  balance id := by
    simp only [hlog, hpend, completeCalls_append, completeCalls_eq_zero (hends id), handedIds_append,
      hids, List.append_nil]
    exact hh.balance id
  called := by
    rw [hlog]
    exact hh.called.append fun before id p after heq =>
      absurd rfl (hends id (.completeCalled id p) (by simp [heq]))
  numbered hlen := by
    simp only [hlog, handedIds_append, hids, List.append_nil] at hlen ⊢
    exact hh.numbered hlen
  next hlen := by
    simp only [hlog, handedIds_append, hids, List.append_nil] at hlen ⊢
    exact (hnext hlen).trans (hh.next hlen)

/-- A step that puts one new entry into the table: the entry awaits its completion. -/
theorem HostInv.accepted (hh : HostInv h) {id : UInt64} {p : P} {slot : UInt32} {tag : UInt64}
    {timeout : UInt32} (hlog : h'.log = h.log ++ [.handedOut id p slot, .dispatched slot])
    (hacc : h.pending.Accepts slot id)
    (hpend : h'.pending = (edgePendingInsert h.pending slot id (some p) tag timeout 0 none).1)
    (hidle : h'.activeInOnHttp = false) (hnext : h'.nextOutboundId = id + 1)
    (hid : (handedIds h.log).length + 1 < 2 ^ 64 →
      id = UInt64.ofNat ((handedIds h.log).length + 1)) : HostInv h' := by
  obtain ⟨hwf, hout⟩ := hh.wellFormed.insert p tag timeout 0 none hacc
  rw [← hpend] at hwf hout
  have hids : handedIds h'.log = handedIds h.log ++ [id] := by
    simp [hlog, handedIds, HostEvent.handedId]
  refine ⟨hwf, hidle, fun id' e he => ?_, fun id' => ?_, ?_, fun hlen => ?_, fun hlen => ?_⟩
  · rw [hout] at he
    split at he
    case isTrue heq =>
      obtain rfl := heq
      obtain rfl := Option.some.inj he
      show ∃ q, some p = some q ∧ Awaits _ id q slot
      exact ⟨p, rfl, h.log, [.dispatched slot], hlog, by simp, by simp [HostEvent.Ends]⟩
    case isFalse hne =>
      obtain ⟨q, hq, hawaits⟩ := hh.live id' e he
      exact ⟨q, hq, hlog ▸ hawaits.append (by simp [HostEvent.Ends])⟩
  · have hbal := hh.balance id'
    rw [hids, hlog, completeCalls_append, hout, List.count_append, List.count_singleton]
    have hcalls : completeCalls id' [.handedOut id p slot, .dispatched slot] = 0 := rfl
    rw [hcalls]
    by_cases heq : id = id'
    · subst heq
      have hnone : h.pending.outbound id = none :=
        SlotView.lookup_eq_none_iff.mpr hacc.2.2.2.1
      simp only [hnone, Option.isSome_none, Bool.false_eq_true, if_false] at hbal
      simp
      omega
    · simp only [heq, if_false, beq_iff_eq]
      omega
  · rw [hlog]
    exact hh.called.append fun before id' p' after heq =>
      absurd heq (ne_split_of_not_mem (by simp))
  · rw [hids] at hlen ⊢
    simp only [List.length_append, List.length_singleton] at hlen ⊢
    rw [firstIds_succ, ← hh.numbered (by omega), hid hlen]
  · rw [hids] at hlen ⊢
    simp only [List.length_append, List.length_singleton] at hlen ⊢
    rw [hnext, hid (by omega)]
    simp

/-- A step that releases an entry and ends its request. -/
theorem HostInv.ended (hh : HostInv h) (evs : List (HostEvent P)) {i : ℕ} {e : EdgePendingEntry P}
    (hlog : h'.log = h.log ++ evs) (he : h.pending.slots[i]? = some e) (hused : e.used = true)
    (hpend : h'.pending = edgePendingRelease h.pending i) (hidle : h'.activeInOnHttp = false)
    (hnext : h'.nextOutboundId = h.nextOutboundId)
    (hends : ∀ id, ∀ ev ∈ evs, ev.Ends id → id = e.outboundId) (hids : handedIds evs = [])
    (hone : completeCalls e.outboundId evs ≤ 1)
    (hcalled : ∀ before id p after, evs = before ++ .completeCalled id p :: after →
      before = [] ∧ id = e.outboundId ∧ e.plugin = some p) : HostInv h' := by
  obtain ⟨hwf, hout⟩ := hh.wellFormed.release he hused
  rw [← hpend] at hwf hout
  have hlive : h.pending.outbound e.outboundId = some e :=
    hh.wellFormed.outbound_eq_some_iff.mpr ⟨List.mem_of_getElem? he, hused, rfl⟩
  have hids' : handedIds h'.log = handedIds h.log := by simp [hlog, hids]
  -- What is left awaits as before; the balance of calls changes for the released entry only.
  refine ⟨hwf, hidle, fun id' e' he' => ?_, fun id' => ?_, ?_, fun hlen => ?_, fun hlen => ?_⟩
  · rw [hout] at he'
    split at he'
    case isTrue => exact absurd he' (by simp)
    case isFalse hne =>
      obtain ⟨q, hq, hawaits⟩ := hh.live id' e' he'
      exact ⟨q, hq, hlog ▸ hawaits.append fun ev hev hend => hne (hends id' ev hev hend).symm⟩
  · have hbal := hh.balance id'
    rw [hids', hlog, completeCalls_append, hout]
    by_cases heq : e.outboundId = id'
    · subst heq
      simp only [hlive, Option.isSome_some, if_true] at hbal
      simp
      omega
    · have hzero : completeCalls id' evs = 0 :=
        completeCalls_eq_zero fun ev hev hend => heq (hends id' ev hev hend).symm
      simp only [heq, if_false, hzero]
      exact hbal
  · rw [hlog]
    refine hh.called.append fun before id p after heq => ?_
    obtain ⟨rfl, rfl, hp⟩ := hcalled before id p after heq
    obtain ⟨q, hq, hawaits⟩ := hh.live _ e hlive
    obtain rfl := Option.some.inj (hq.symm.trans hp)
    exact ⟨e.inboundSlot, by simpa using hawaits⟩
  · rw [hids'] at hlen ⊢
    exact hh.numbered hlen
  · rw [hids'] at hlen ⊢
    exact hnext.trans (hh.next hlen)

/-- A step that releases an entry and calls no plugin. -/
theorem HostInv.released (hh : HostInv h) {i : ℕ} {e : EdgePendingEntry P}
    (hlog : h'.log = h.log ++ [.ended e.outboundId]) (he : h.pending.slots[i]? = some e)
    (hused : e.used = true) (hpend : h'.pending = edgePendingRelease h.pending i)
    (hidle : h'.activeInOnHttp = false) (hnext : h'.nextOutboundId = h.nextOutboundId) : HostInv h' := by
  refine hh.ended [.ended e.outboundId] hlog he hused hpend hidle hnext (by simp [HostEvent.Ends]) rfl
    (by simp [completeCalls, HostEvent.isCall]) fun before id p after heq => ?_
  exact absurd heq (ne_split_of_not_mem (by simp))

end Steps

/-! ## The steps keep the invariant -/

variable {vtbl : P → Option (EdgePluginVtbl υ)} {h : EdgePluginHost P} {mem : υ}

/-- A dispatch that runs `on_http`, for a slot that waits for nothing. -/
private theorem HostInv.ran (hh : HostInv h) {p : P} {slot : UInt32}
    (hfree : edgePendingFindInbound h.pending slot = none)
    (c : Client ApiCall ApiReply (PluginResult υ)) :
    let out := c.run apiAnswer (enterOnHttp h p slot)
    HostInv (afterOnHttp (leaveOnHttp out.1 slot) out.2 slot).host := by
  intro out
  have hmint : (handedIds h.log).length + 1 < 2 ^ 64 →
      (enterOnHttp h p slot).dispatchState.Mintable := fun hk =>
    ⟨(hh.mintable hk).2.wellFormed, (hh.mintable hk).2.fresh⟩
  obtain ⟨-, -, hhost⟩ := afterOnHttp_spec (leaveOnHttp out.1 slot) out.2 slot
  have heff := run_effect c (enterOnHttp h p slot) rfl
  have hlog : (leaveOnHttp out.1 slot).log =
      h.log ++ (handedOutEvents c (enterOnHttp h p slot) ++ [.dispatched slot]) := by
    rw [← List.append_assoc]
    exact congrArg (· ++ [HostEvent.dispatched slot]) (run_log c (enterOnHttp h p slot))
  rw [handedOutEvents] at hlog
  generalize hs : (c.run apiAnswer (enterOnHttp h p slot)).1.dispatchState = s,
    acceptedIds c (enterOnHttp h p slot) = ids at heff hlog
  have hpend : (leaveOnHttp out.1 slot).pending = s.pending := congrArg DispatchState.pending hs
  have hnextId : (leaveOnHttp out.1 slot).nextOutboundId = s.nextOutboundId :=
    congrArg DispatchState.nextOutboundId hs
  have hstarted : (leaveOnHttp out.1 slot).clientReqStarted = s.clientReqStarted :=
    congrArg DispatchState.clientReqStarted hs
  cases heff with
  | quiet next hnext =>
    rw [hhost (Or.inl (by rw [hpend]; exact hfree))]
    refine hh.quiet hlog hpend rfl (fun hk => ?_) (by simp [HostEvent.Ends]) rfl
    rw [hnextId]
    exact hnext (hmint hk)
  | accepted next hnext req q hq hacc =>
    rw [hhost (Or.inr hstarted)]
    obtain rfl : p = q := Option.some.inj hq
    refine hh.accepted hlog hacc hpend rfl hnextId fun hk => ?_
    have hsame : next = h.nextOutboundId := hnext (hmint hk)
    rw [hsame]
    exact (hh.mintable hk).1

theorem hostInv_dispatch (hh : HostInv h) (mem : υ) (plugin : Option P) (req : EdgeHttpReq)
    (res : EdgeHttpRes) : HostInv (edgePluginHostDispatchHttp vtbl h mem plugin req res).host := by
  cases hhandler : httpHandler vtbl plugin with
  | none => rwa [(dispatch_refused vtbl h mem plugin req res (Or.inl hhandler)).1]
  | some ph =>
    obtain ⟨p, onHttp⟩ := ph
    cases hfind : edgePendingFindInbound h.pending req.inboundSlot with
    | some e => rwa [(dispatch_refused vtbl h mem plugin req res (Or.inr (by rw [hfind]; rfl))).1]
    | none =>
      rw [dispatch_ran hhandler hfind]
      exact hh.ran hfind _

/-- Completing an id that no entry has does nothing. -/
theorem complete_missing {upstream : EdgeHttpClientResult}
    {res : EdgeHttpRes} (hmissing : edgePendingFindOutbound h.pending upstream.outboundId = none) :
    edgePluginHostCompleteOutbound vtbl h mem upstream res = ⟨h, mem, res, EDGE_PLUGIN_ERR⟩ := by
  rw [edgePluginHostCompleteOutbound]
  split
  · rfl
  · rw [hmissing]

/-- An id that was found is not 0. -/
theorem outboundId_ne_zero {t : EdgePendingTable P} {id : UInt64} {ie : ℕ × EdgePendingEntry P}
    (hfind : edgePendingFindOutbound t id = some ie) : id ≠ 0 := by
  rintro h0
  rw [edgePendingFindOutbound, if_pos h0] at hfind
  exact absurd hfind (by simp)

/-- A completion for an entry whose plugin has no handler only releases it. -/
theorem complete_unhandled (mem : υ) {upstream : EdgeHttpClientResult} (res : EdgeHttpRes) {i : ℕ}
    {e : EdgePendingEntry P}
    (hfind : edgePendingFindOutbound h.pending upstream.outboundId = some (i, e))
    (hno : completeHandler vtbl e = none) :
    (edgePluginHostCompleteOutbound vtbl h mem upstream res).host = releaseEntry h i e ∧
      (edgePluginHostCompleteOutbound vtbl h mem upstream res).mem = mem := by
  rw [completeHandler] at hno
  rw [edgePluginHostCompleteOutbound, if_neg (outboundId_ne_zero hfind), hfind]
  simp only [hno]
  cases e.plugin <;> exact ⟨rfl, rfl⟩

/-- A handler belongs to a plugin. -/
theorem plugin_of_handler {e : EdgePendingEntry P}
    {f : EdgeHttpClientResult → EdgeHttpRes → υ → Client ApiCall ApiReply (PluginResult υ)}
    (hh : completeHandler vtbl e = some f) : ∃ p, e.plugin = some p := by
  obtain ⟨_, hvt, -⟩ := Option.bind_eq_some_iff.mp hh
  obtain ⟨p, hp, -⟩ := Option.bind_eq_some_iff.mp hvt
  exact ⟨p, hp⟩

/-- A completion for another entry calls the handler, and then releases the entry. -/
theorem complete_handled (mem : υ) {upstream : EdgeHttpClientResult} (res : EdgeHttpRes) {i : ℕ}
    {e : EdgePendingEntry P}
    {f : EdgeHttpClientResult → EdgeHttpRes → υ → Client ApiCall ApiReply (PluginResult υ)} {p : P}
    (hfind : edgePendingFindOutbound h.pending upstream.outboundId = some (i, e))
    (hh : completeHandler vtbl e = some f) (hp : e.plugin = some p) :
    let called := callOnHttpComplete h upstream.outboundId p (f upstream res mem)
    (edgePluginHostCompleteOutbound vtbl h mem upstream res).host = releaseEntry called.1 i e ∧
      (edgePluginHostCompleteOutbound vtbl h mem upstream res).mem = called.2.mem := by
  rw [completeHandler] at hh
  rw [edgePluginHostCompleteOutbound, if_neg (outboundId_ne_zero hfind), hfind]
  simp only [hh]
  rw [hp]
  dsimp only
  split
  · exact ⟨rfl, rfl⟩
  · split <;> exact ⟨rfl, rfl⟩

theorem hostInv_complete (hh : HostInv h) (mem : υ) (upstream : EdgeHttpClientResult)
    (res : EdgeHttpRes) : HostInv (edgePluginHostCompleteOutbound vtbl h mem upstream res).host := by
  cases hfind : edgePendingFindOutbound h.pending upstream.outboundId with
  | none => rwa [complete_missing hfind]
  | some ie =>
    obtain ⟨i, e⟩ := ie
    obtain ⟨he, hused, hid, -⟩ := EdgePendingTable.findOutbound_eq_some hfind
    cases hhandler : completeHandler vtbl e with
    | none =>
      rw [(complete_unhandled mem res hfind hhandler).1]
      exact hh.released rfl he hused rfl hh.idle rfl
    | some f =>
      obtain ⟨p, hp⟩ := plugin_of_handler hhandler
      rw [(complete_handled mem res hfind hhandler hp).1]
      -- Outside `on_http` the handler can start no request.
      have hkeep := run_settled (f upstream res mem) (h.note (.completeCalled upstream.outboundId p))
        (Or.inl hh.idle)
      have hlog := run_log (f upstream res mem) (h.note (.completeCalled upstream.outboundId p))
      rw [handedOutEvents, hkeep.2, List.filterMap_nil, List.append_nil] at hlog
      have hsame := hkeep.1
      have hone : completeCalls e.outboundId [HostEvent.completeCalled upstream.outboundId p,
          .ended e.outboundId] ≤ 1 := by
        rw [completeCalls, List.countP_cons, List.countP_cons, List.countP_nil]
        by_cases heq : upstream.outboundId = e.outboundId <;> simp [HostEvent.isCall, heq]
      refine hh.ended [.completeCalled upstream.outboundId p, .ended e.outboundId] ?_ he hused
        (congrArg (edgePendingRelease · i) (congrArg DispatchState.pending hsame))
        ((congrArg DispatchState.activeInOnHttp hsame).trans hh.idle)
        (congrArg DispatchState.nextOutboundId hsame) (by simp [HostEvent.Ends, hid]) rfl hone ?_
      · rw [List.append_cons]
        exact congrArg (· ++ [HostEvent.ended e.outboundId]) hlog
      · intro before id q after heq
        cases before with
        | nil =>
          obtain ⟨hcall, -⟩ := List.cons_eq_cons.mp heq
          injection hcall with hid' hq
          exact ⟨rfl, by rw [← hid', hid], by rw [hp, hq]⟩
        | cons ev before =>
          obtain ⟨-, htail⟩ := List.cons_eq_cons.mp heq
          exact absurd htail (ne_split_of_not_mem (by simp))

theorem hostInv_cancel (hh : HostInv h) (slot : UInt32) :
    HostInv (edgePluginHostCancelInbound h slot).1 := by
  rw [edgePluginHostCancelInbound, releaseInbound, edgePendingReleaseInbound]
  cases hfind : edgePendingFindInbound h.pending slot with
  | none => exact hh.quiet rfl rfl hh.idle (fun _ => rfl) (by simp [endOf]) rfl
  | some ie =>
    obtain ⟨i, e⟩ := ie
    obtain ⟨he, hused, -⟩ := EdgePendingTable.findInbound_eq_some hfind
    exact hh.released rfl he hused rfl hh.idle rfl

/-- Every call of the host keeps the invariant. -/
theorem hostInv_step (w : PluginWorld P υ) (op : PluginOp P) (hw : HostInv w.host) :
    HostInv (pluginStep vtbl w op).host := by
  cases op with
  | dispatch plugin req res => exact hostInv_dispatch hw w.mem plugin req res
  | complete upstream res => exact hostInv_complete hw w.mem upstream res
  | cancel slot => exact hostInv_cancel hw slot

/-- **Each request is completed at most once.** In every run, `on_http_complete` is called for an id
at most as often as the id was handed out, each time on the plugin that asked for it, after its
dispatch and before any end of the request; completing an id that is not awaited is an error that
calls nothing and changes nothing; and the first 2^64 - 1 ids are not zero and pairwise distinct. -/
theorem pluginRun_completesOnce (vtbl : P → Option (EdgePluginVtbl υ)) (maxPending : ℕ)
    (state : Option StateStore) (mem : υ) (ops : List (PluginOp P)) :
    let w := runFrom (pluginStep vtbl) (pluginStart maxPending state mem) ops
    (∀ id, completeCalls id w.host.log ≤ (handedIds w.host.log).count id) ∧
      (∀ before id p after, w.host.log = before ++ .completeCalled id p :: after →
        ∃ slot, Awaits before id p slot) ∧
      (∀ upstream res, (¬ ∃ p slot, Awaits w.host.log upstream.outboundId p slot) →
        (edgePluginHostCompleteOutbound vtbl w.host w.mem upstream res).status = EDGE_PLUGIN_ERR ∧
          pluginStep vtbl w (.complete upstream res) = w) ∧
      ((handedIds w.host.log).length < 2 ^ 64 →
        0 ∉ handedIds w.host.log ∧ (handedIds w.host.log).Nodup) := by
  intro w
  have hstart : HostInv (pluginStart (P := P) maxPending state mem).host :=
    hostInv_create maxPending state
  have hw : HostInv w.host := runFrom_of_step (fun w op => hostInv_step w op) hstart ops
  refine ⟨fun id => ?_, hw.called, fun upstream res hno => ?_, fun hlen => ?_⟩
  · exact (Nat.le_add_right _ _).trans (hw.balance id)
  · have hmissing : edgePendingFindOutbound w.host.pending upstream.outboundId = none := by
      cases hfind : edgePendingFindOutbound w.host.pending upstream.outboundId with
      | none => rfl
      | some ie =>
        obtain ⟨-, -, -, hout⟩ := EdgePendingTable.findOutbound_eq_some hfind
        obtain ⟨p, -, hawaits⟩ := hw.live _ _ hout
        exact absurd ⟨p, _, hawaits⟩ hno
    exact ⟨by rw [complete_missing hmissing], by rw [pluginStep, complete_missing hmissing]⟩
  · rw [hw.numbered hlen]
    exact ⟨fun h0 => absurd (mem_firstIds hlen h0).1 (by simp), nodup_firstIds hlen⟩

end Edgehost
