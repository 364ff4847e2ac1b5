import Edgehost.Common.Runs
import Edgehost.Core.PendingRuns
import Edgehost.Host.OpenaiProxy
import Edgehost.Host.OutboundHttp
import Edgehost.Host.PluginRuns

/-!
# The OpenAI proxy's count of requests in flight, over whole runs

The proxy is one plugin `o` of a host that may have any others. Its counter lives in its own memory,
the entries it counts in the host's pending table, and entries also leave that table on paths that do
not call the plugin back.

* `EdgePluginVtbl.within` gives each plugin its part of the plugins' memory.
* `Leaks` names the calls that release an entry of the proxy behind its back: the cancellation of an
  inbound request it waits for, and a pending request that is finished without memory.
* `always_openaiCounted_iff` is the result: the counter is the number of the proxy's entries all
  along a run exactly when no call of the run leaks.
-/

namespace Edgehost

variable {P υ α ρ : Type*}

/-! ## Plugins that share a memory -/

/-- A plugin whose memory is a part of a larger one. -/
def EdgePluginVtbl.within (get : υ → α) (set : υ → α → υ) (vt : EdgePluginVtbl α) :
    EdgePluginVtbl υ where
  kind := vt.kind
  init := vt.init.map fun init mem => (init (get mem)).map fun r => (r.1, set mem r.2)
  onHttp := vt.onHttp.map fun onHttp req res mem =>
    (onHttp req res (get mem)).map fun r => ⟨r.status, r.res, set mem r.mem⟩
  onHttpComplete := vt.onHttpComplete.map fun onHttpComplete up res mem =>
    (onHttpComplete up res (get mem)).map fun r => ⟨r.status, r.res, set mem r.mem⟩

variable {ω : Type*} [DecidableEq P]

/-- The plugins of a host: the proxy at `o`, and the others. -/
def pluginTable (o : P) (now : ℤ) (alloc : Bool) (others : P → Option (EdgePluginVtbl ω)) (p : P) :
    Option (EdgePluginVtbl (OpenaiData × ω)) :=
  if p = o then some ((openaiVtbl now alloc).within Prod.fst fun mem d => (d, mem.2))
  else (others p).map (EdgePluginVtbl.within Prod.snd fun mem x => (mem.1, x))

/-! ## The calls of the host -/

/-- The host, the proxy's memory and the memory of the other plugins. -/
structure OpenaiWorld (P ω : Type*) where
  host : EdgePluginHost P
  mem : OpenaiData × ω
  deriving DecidableEq

/-- A call of the host that may touch the pending table. -/
inductive HostCall (P : Type*) where
  | dispatch (plugin : Option P) (req : EdgeHttpReq) (res : EdgeHttpRes)
  | complete (upstream : EdgeHttpClientResult) (res : EdgeHttpRes)
  | cancel (slot : UInt32)
  | finish (net : Network) (alloc allowBlockingDns : Bool) (maxUpstreamBody : ℕ) (res : EdgeHttpRes)

/-- A call, at a time, and whether the host can grow its buffer in it. -/
structure OpenaiOp (P : Type*) where
  now : ℤ
  alloc : Bool
  call : HostCall P

def HostResult.world (r : HostResult P (OpenaiData × ω)) : OpenaiWorld P ω := ⟨r.host, r.mem⟩

/-- One call of the host. -/
def openaiStep (o : P) (others : P → Option (EdgePluginVtbl ω)) (w : OpenaiWorld P ω)
    (op : OpenaiOp P) : OpenaiWorld P ω :=
  let vtbl := pluginTable o op.now op.alloc others
  match op.call with
  | .dispatch plugin req res => (edgePluginHostDispatchHttp vtbl w.host w.mem plugin req res).world
  | .complete upstream res => (edgePluginHostCompleteOutbound vtbl w.host w.mem upstream res).world
  | .cancel slot => ⟨(edgePluginHostCancelInbound w.host slot).1, w.mem⟩
  | .finish net alloc allowBlockingDns maxUpstreamBody res =>
    (edgePluginHostFinishPendingSync vtbl net alloc w.host w.mem allowBlockingDns maxUpstreamBody
      res).world

/-- A new host, a proxy that has served nothing, and any memory of the other plugins. -/
def openaiStart (maxPending : ℕ) (state : Option StateStore) (cfg : EdgeOpenaiProxyConfig)
    (apiKey : Bytes) (x : ω) : OpenaiWorld P ω :=
  ⟨edgePluginHostCreate maxPending state, openaiData cfg apiKey, x⟩

/-! ## What is counted -/

/-- The number of entries that belong to a plugin. -/
def EdgePendingTable.owned (t : EdgePendingTable P) (p : P) : ℕ :=
  t.slots.countP fun e => e.used && e.plugin = some p

/-- The counter is the number of the proxy's entries, and the proxy is only busy while it waits for
as many requests as it may. -/
def OpenaiCounted (o : P) (w : OpenaiWorld P ω) : Prop :=
  w.mem.1.inFlight = w.host.pending.owned o ∧
    (w.mem.1.Busy → w.mem.1.cfg.maxConcurrentPerPrincipal.toNat ≤ w.host.pending.owned o)

/-- The entry, if there is one, belongs to a plugin. -/
def OwnedBy (o : P) : Option (ℕ × EdgePendingEntry P) → Prop
  | none => False
  | some (_, e) => e.plugin = some o

/-- The call releases an entry of the proxy without calling the proxy back. -/
def Leaks (o : P) (h : EdgePluginHost P) : HostCall P → Prop
  | .dispatch .. => False
  | .complete .. => False
  | .cancel slot => OwnedBy o (edgePendingFindInbound h.pending slot)
  | .finish _ alloc _ _ _ =>
    h.hasLastReq = true ∧ alloc = false ∧
      OwnedBy o (edgePendingFindOutbound h.pending h.lastOutboundId)

namespace EdgePendingTable

variable {t : EdgePendingTable P}

theorem owned_create (capacity : ℕ) (p : P) : (edgePendingCreate capacity).owned p = 0 := by
  simp [owned, edgePendingCreate, List.countP_replicate, EdgePendingEntry.zero]

/-- An entry that is taken belongs to its plugin. -/
theorem owned_insert {slot : UInt32} {id : UInt64} (q : P) (tag : UInt64) (timeout : UInt32)
    (started : UInt64) (sub : Option Bytes) (hacc : t.Accepts slot id) (p : P) :
    (edgePendingInsert t slot id (some q) tag timeout started sub).1.owned p
      = t.owned p + if q = p then 1 else 0 := by
  obtain ⟨-, i, old, hold, hfree, heq⟩ | ⟨hn, -⟩ := insert_cases t slot id q tag timeout started sub
  · have hcount := countP_set_add (fun e => e.used && e.plugin = some p)
      (newPendingEntry slot id (some q) tag timeout started sub) hold
    simp only [hfree, Bool.false_and, Bool.false_eq_true, if_false, newPendingEntry, Bool.true_and,
      decide_eq_true_eq, Option.some.injEq, Nat.add_zero] at hcount
    rw [heq]
    exact hcount
  · exact absurd hacc hn

/-- An entry that is released belongs to its plugin no more. -/
theorem owned_release {i : ℕ} {e : EdgePendingEntry P} (he : t.slots[i]? = some e)
    (hused : e.used = true) (p : P) :
    (edgePendingRelease t i).owned p + (if e.plugin = some p then 1 else 0) = t.owned p := by
  have hcount := countP_set_add (fun e => e.used && e.plugin = some p) .zero he
  simp only [hused, Bool.true_and, decide_eq_true_eq, EdgePendingEntry.zero, Bool.false_and,
    Bool.false_eq_true, if_false, Nat.add_zero] at hcount
  simp only [edgePendingRelease, he, hused, Bool.not_true, Bool.false_eq_true, if_false]
  exact hcount

end EdgePendingTable

/-! ## The invariant of the host -/

/-- The table is well formed and no `on_http` is running. -/
structure OpenaiInv (h : EdgePluginHost P) : Prop where
  wellFormed : h.pending.WellFormed
  idle : h.activeInOnHttp = false

variable {o : P} {others : P → Option (EdgePluginVtbl ω)} {w : OpenaiWorld P ω}

/-- What the proxy counts decides when it is busy. -/
theorem openaiCounted_iff :
    OpenaiCounted o w ↔ w.mem.1.inFlight = w.host.pending.owned o := by
  refine ⟨And.left, fun h => ⟨h, fun hbusy => ?_⟩⟩
  have hle : w.mem.1.cfg.maxConcurrentPerPrincipal.toNat ≤ (UInt32.ofNat w.mem.1.inFlight).toNat :=
    UInt32.le_iff_toNat_le.mp hbusy.2
  rw [UInt32.toNat_ofNat'] at hle
  rw [← h]
  exact hle.trans (Nat.mod_le _ _)

omit [DecidableEq P] in
@[simp] theorem acceptedIds_map {ρ' : Type*} (f : ρ → ρ') (c : Client ApiCall ApiReply ρ)
    (h : EdgePluginHost P) : acceptedIds (c.map f) h = acceptedIds c h := by
  rw [acceptedIds, Client.asked_map, acceptedIds]

/-! ## A dispatch -/

/-- What `on_http` does to the table of a host that runs no other: one entry of the plugin for each
id that it was given. -/
theorem run_owned (c : Client ApiCall ApiReply ρ) {h : EdgePluginHost P} (hinv : OpenaiInv h) (p : P)
    (slot : UInt32) (o : P) :
    let h' := leaveOnHttp (c.run apiAnswer (enterOnHttp h p slot)).1 slot
    OpenaiInv h' ∧ h'.pending.owned o
      = h.pending.owned o + if p = o then (acceptedIds c (enterOnHttp h p slot)).length else 0 := by
  intro h'
  have heff := run_effect c (enterOnHttp h p slot) rfl
  generalize hs : (c.run apiAnswer (enterOnHttp h p slot)).1.dispatchState = s,
    acceptedIds c (enterOnHttp h p slot) = ids at heff
  have hpend : h'.pending = s.pending := congrArg DispatchState.pending hs
  cases heff with
  | quiet next hnext =>
    refine ⟨⟨by rw [hpend]; exact hinv.wellFormed, rfl⟩, ?_⟩
    rw [hpend]
    show h.pending.owned o = _
    simp
  | accepted next hnext req q hq hacc =>
    obtain rfl : p = q := Option.some.inj hq
    refine ⟨⟨by rw [hpend]; exact (hinv.wellFormed.insert p _ _ _ _ hacc).1, rfl⟩, ?_⟩
    rw [hpend]
    exact EdgePendingTable.owned_insert p _ _ _ _ hacc o

/-- A plugin's handler, and what it does to the proxy's counter: the proxy counts the ids it is
given, and the others do not touch it. -/
theorem httpHandler_counts {now : ℤ} {alloc : Bool} {plugin : Option P} {p : P}
    {onHttp : EdgeHttpReq → EdgeHttpRes → OpenaiData × ω →
      Client ApiCall ApiReply (PluginResult (OpenaiData × ω))}
    (hh : httpHandler (pluginTable o now alloc others) plugin = some (p, onHttp))
    (req : EdgeHttpReq) (res : EdgeHttpRes) (mem : OpenaiData × ω) (h : EdgePluginHost P) :
    ((onHttp req res mem).run apiAnswer h).2.mem.1.inFlight
      = mem.1.inFlight + if p = o then (acceptedIds (onHttp req res mem) h).length else 0 := by
  obtain ⟨q, rfl, hq⟩ := Option.bind_eq_some_iff.mp hh
  obtain ⟨vt, hvt, hkind⟩ := Option.bind_eq_some_iff.mp hq
  obtain ⟨-, hmap⟩ := Option.ite_none_right_eq_some.mp hkind
  obtain ⟨f, hf, hpair⟩ := Option.map_eq_some_iff.mp hmap
  obtain ⟨rfl, rfl⟩ := Prod.mk.injEq .. ▸ hpair
  by_cases hqo : q = o
  · rw [pluginTable, if_pos hqo] at hvt
    obtain rfl := Option.some.inj hvt
    obtain rfl := Option.some.inj hf
    simp only [hqo, if_true, Client.run_map, acceptedIds_map]
    exact openaiOnHttp_counts now alloc req res mem.1 h
  · rw [pluginTable, if_neg hqo] at hvt
    obtain ⟨vt', -, rfl⟩ := Option.map_eq_some_iff.mp hvt
    obtain ⟨g, -, rfl⟩ := Option.map_eq_some_iff.mp hf
    simp [hqo]

variable (others) in
/-- **A dispatch is balanced**: the counter and the proxy's entries grow by the same number. -/
theorem dispatch_balanced (hinv : OpenaiInv w.host) (now : ℤ) (alloc : Bool) (plugin : Option P)
    (req : EdgeHttpReq) (res : EdgeHttpRes) :
    let r := edgePluginHostDispatchHttp (pluginTable o now alloc others) w.host w.mem plugin req res
    OpenaiInv r.host ∧ ∃ n, r.mem.1.inFlight = w.mem.1.inFlight + n ∧
      r.host.pending.owned o = w.host.pending.owned o + n := by
  intro r
  by_cases hno : httpHandler (pluginTable o now alloc others) plugin = none ∨
      (edgePendingFindInbound w.host.pending req.inboundSlot).isSome
  · obtain ⟨hhost, hmem, -⟩ := dispatch_refused _ w.host w.mem plugin req res hno
    refine ⟨by rw [show r.host = w.host from hhost]; exact hinv, 0, ?_, ?_⟩
    · rw [show r.mem = w.mem from hmem, Nat.add_zero]
    · rw [show r.host = w.host from hhost, Nat.add_zero]
  · obtain ⟨hsome, hfree⟩ := not_or.mp hno
    obtain ⟨⟨p, onHttp⟩, hh⟩ := Option.ne_none_iff_exists'.mp hsome
    have hfree : edgePendingFindInbound w.host.pending req.inboundSlot = none := by
      simpa using hfree
    obtain ⟨hinv', howned⟩ := run_owned (onHttp req res w.mem) hinv p req.inboundSlot o
    have hpend := run_pending (onHttp req res w.mem) (enterOnHttp w.host p req.inboundSlot) rfl
    have hr : r = _ := dispatch_ran hh hfree
    obtain ⟨-, hmem, hhost⟩ := afterOnHttp_spec
      (leaveOnHttp ((onHttp req res w.mem).run apiAnswer (enterOnHttp w.host p req.inboundSlot)).1
        req.inboundSlot)
      ((onHttp req res w.mem).run apiAnswer (enterOnHttp w.host p req.inboundSlot)).2
      req.inboundSlot
    have hhost := hhost (by
      rcases hpend with ⟨-, -, hsame⟩ | ⟨-, hstarted, -⟩
      · exact Or.inl ((congrArg (edgePendingFindInbound · req.inboundSlot) hsame).trans hfree)
      · exact Or.inr hstarted)
    rw [← hr] at hmem hhost
    refine ⟨by rw [hhost]; exact hinv', _, ?_, by rw [hhost]; exact howned⟩
    rw [hmem]
    exact httpHandler_counts hh req res w.mem _

/-! ## A completion -/

/-- A handler counts one request less if it is the proxy's, and else counts nothing. -/
theorem completeHandler_counts {now : ℤ} {alloc : Bool} {e : EdgePendingEntry P}
    {onHttpComplete : EdgeHttpClientResult → EdgeHttpRes → OpenaiData × ω →
      Client ApiCall ApiReply (PluginResult (OpenaiData × ω))}
    (hh : completeHandler (pluginTable o now alloc others) e = some onHttpComplete)
    (up : EdgeHttpClientResult) (res : EdgeHttpRes) (mem : OpenaiData × ω) (h : EdgePluginHost P) :
    ((onHttpComplete up res mem).run apiAnswer h).2.mem.1.inFlight
      = mem.1.inFlight - if e.plugin = some o then 1 else 0 := by
  obtain ⟨vt, hvt, hf⟩ := Option.bind_eq_some_iff.mp hh
  obtain ⟨p, hp, hvt⟩ := Option.bind_eq_some_iff.mp hvt
  rw [hp]
  by_cases hpo : p = o
  · rw [pluginTable, if_pos hpo] at hvt
    obtain rfl := Option.some.inj hvt
    obtain rfl := Option.some.inj hf
    simp only [hpo, if_true, Client.run_map]
    exact openaiOnHttpComplete_inFlight up res mem.1
  · rw [pluginTable, if_neg hpo] at hvt
    obtain ⟨vt', -, rfl⟩ := Option.map_eq_some_iff.mp hvt
    obtain ⟨g, -, rfl⟩ := Option.map_eq_some_iff.mp hf
    simp [hpo]

/-- Without a handler the entry is another plugin's. -/
theorem completeHandler_none {now : ℤ} {alloc : Bool} {e : EdgePendingEntry P}
    (hh : completeHandler (pluginTable o now alloc others) e = none) : e.plugin ≠ some o := by
  intro hp
  simp [completeHandler, hp, pluginTable, EdgePluginVtbl.within, openaiVtbl] at hh

/-- A released entry of the proxy, counted before and after. -/
theorem OpenaiInv.release {h : EdgePluginHost P} (hinv : OpenaiInv h) {i : ℕ}
    {e : EdgePendingEntry P} (he : h.pending.slots[i]? = some e) (hused : e.used = true) (o : P) :
    OpenaiInv (releaseEntry h i e) ∧
      (edgePendingRelease h.pending i).owned o + (if e.plugin = some o then 1 else 0)
        = h.pending.owned o :=
  ⟨⟨(hinv.wellFormed.release he hused).1, hinv.idle⟩, EdgePendingTable.owned_release he hused o⟩

variable (others) in
/-- **A completion keeps the count**: it takes an entry of the proxy away and calls the proxy
back. -/
theorem complete_counts (hinv : OpenaiInv w.host) (now : ℤ) (alloc : Bool)
    (upstream : EdgeHttpClientResult) (res : EdgeHttpRes) :
    let r := edgePluginHostCompleteOutbound (pluginTable o now alloc others) w.host w.mem upstream res
    OpenaiInv r.host ∧ (w.mem.1.inFlight = w.host.pending.owned o →
      r.mem.1.inFlight = r.host.pending.owned o) := by
  intro r
  cases hfind : edgePendingFindOutbound w.host.pending upstream.outboundId with
  | none =>
    have hr : r = _ := complete_missing hfind
    rw [hr]
    exact ⟨hinv, id⟩
  | some ie =>
    obtain ⟨i, e⟩ := ie
    obtain ⟨he, hused, -, -⟩ := EdgePendingTable.findOutbound_eq_some hfind
    obtain ⟨hrel, hcount⟩ := hinv.release he hused o
    cases hh : completeHandler (pluginTable o now alloc others) e with
    | none =>
      obtain ⟨hhost, hmem⟩ := complete_unhandled w.mem res hfind hh
      rw [if_neg (completeHandler_none hh), Nat.add_zero] at hcount
      rw [show r.host = _ from hhost, show r.mem = _ from hmem]
      exact ⟨hrel, fun h => h.trans hcount.symm⟩
    | some onHttpComplete =>
      obtain ⟨p, hp⟩ := plugin_of_handler hh
      obtain ⟨hhost, hmem⟩ := complete_handled w.mem res hfind hh hp
      obtain ⟨hsame, -⟩ := run_settled (onHttpComplete upstream res w.mem)
        (w.host.note (.completeCalled upstream.outboundId p)) (Or.inl hinv.idle)
      rw [← callOnHttpComplete] at hsame
      have hpend := congrArg DispatchState.pending hsame
      have hidle := congrArg DispatchState.activeInOnHttp hsame
      have hr : r.host.pending = edgePendingRelease w.host.pending i :=
        (congrArg EdgePluginHost.pending hhost).trans (congrArg (edgePendingRelease · i) hpend)
      refine ⟨⟨hr ▸ hrel.wellFormed, ?_⟩, fun h => ?_⟩
      · exact (congrArg EdgePluginHost.activeInOnHttp hhost).trans (hidle.trans hinv.idle)
      · rw [hr, show r.mem = _ from hmem, callOnHttpComplete, completeHandler_counts hh, h, ← hcount]
        exact Nat.add_sub_cancel _ _

/-! ## Releases without a callback -/

/-- A release that calls nobody back keeps the count exactly when the entry is not the proxy's. -/
theorem release_counts_iff (hinv : OpenaiInv w.host) {i : ℕ} {e : EdgePendingEntry P}
    (he : w.host.pending.slots[i]? = some e) (hused : e.used = true)
    (hc : w.mem.1.inFlight = w.host.pending.owned o) :
    w.mem.1.inFlight = (edgePendingRelease w.host.pending i).owned o ↔ e.plugin ≠ some o := by
  have hcount := (hinv.release he hused o).2
  rw [hc, ← hcount]
  split
  case isTrue h => simp [h]
  case isFalse h => simp [h]

theorem cancel_counts (hinv : OpenaiInv w.host) (slot : UInt32) :
    let h' := (edgePluginHostCancelInbound w.host slot).1
    OpenaiInv h' ∧ (w.mem.1.inFlight = w.host.pending.owned o →
      (w.mem.1.inFlight = h'.pending.owned o ↔ ¬ Leaks o w.host (.cancel slot))) := by
  intro h'
  simp only [h', edgePluginHostCancelInbound, releaseInbound, edgePendingReleaseInbound, Leaks]
  cases hfind : edgePendingFindInbound w.host.pending slot with
  | none => exact ⟨⟨hinv.wellFormed, hinv.idle⟩, fun hc => iff_of_true hc id⟩
  | some ie =>
    obtain ⟨i, e⟩ := ie
    obtain ⟨he, hused, -⟩ := EdgePendingTable.findInbound_eq_some hfind
    have hrel := (hinv.release he hused o).1
    exact ⟨⟨hrel.wellFormed, hrel.idle⟩, release_counts_iff hinv he hused⟩

variable (others) in
theorem finish_counts (hinv : OpenaiInv w.host) (now : ℤ) (grow : Bool) (net : Network)
    (alloc allowBlockingDns : Bool) (maxUpstreamBody : ℕ) (res : EdgeHttpRes) :
    let r := edgePluginHostFinishPendingSync (pluginTable o now grow others) net alloc w.host w.mem
      allowBlockingDns maxUpstreamBody res
    OpenaiInv r.host ∧ (w.mem.1.inFlight = w.host.pending.owned o →
      (r.mem.1.inFlight = r.host.pending.owned o ↔
        ¬ Leaks o w.host (.finish net alloc allowBlockingDns maxUpstreamBody res))) := by
  intro r
  simp only [r, edgePluginHostFinishPendingSync, edgePluginHostLastClientReq]
  by_cases hreq : w.host.hasLastReq = true
  case neg =>
    simp only [hreq, Bool.not_false, if_true]
    exact ⟨hinv, fun hc => iff_of_true hc fun hleak => hreq hleak.1⟩
  simp only [hreq, Bool.not_true, Bool.false_eq_true, if_false]
  by_cases hid : w.host.lastOutboundId = 0
  · rw [if_pos hid]
    refine ⟨hinv, fun hc => iff_of_true hc fun hleak => ?_⟩
    have hnone := hleak.2.2
    rw [edgePendingFindOutbound, if_pos hid] at hnone
    exact hnone
  rw [if_neg hid]
  cases alloc with
  | true =>
    let executed : OpenaiWorld P ω := ⟨w.host.note (.executed w.host.lastOutboundId), w.mem⟩
    have hexecuted : OpenaiInv executed.host := ⟨hinv.wellFormed, hinv.idle⟩
    obtain ⟨hinv', hkeep⟩ := complete_counts others hexecuted now grow (o := o)
      (pendingUpstream net w.host _ allowBlockingDns maxUpstreamBody) res
    exact ⟨hinv', fun hc => iff_of_true (hkeep hc) fun hleak => absurd hleak.2.1 (by simp)⟩
  | false =>
    simp only [Bool.not_false, if_true, releaseOutbound, edgePendingReleaseOutbound, Leaks, hreq,
      true_and]
    cases hfind : edgePendingFindOutbound w.host.pending w.host.lastOutboundId with
    | none => exact ⟨⟨hinv.wellFormed, hinv.idle⟩, fun hc => iff_of_true hc id⟩
    | some ie =>
      obtain ⟨i, e⟩ := ie
      obtain ⟨he, hused, -, -⟩ := EdgePendingTable.findOutbound_eq_some hfind
      have hrel := (hinv.release he hused o).1
      exact ⟨⟨hrel.wellFormed, hrel.idle⟩, release_counts_iff hinv he hused⟩

/-! ## Runs -/

theorem openaiStep_inv (o : P) (others : P → Option (EdgePluginVtbl ω)) (w : OpenaiWorld P ω)
    (op : OpenaiOp P) (hinv : OpenaiInv w.host) : OpenaiInv (openaiStep o others w op).host := by
  obtain ⟨now, alloc, call⟩ := op
  cases call with
  | dispatch plugin req res => exact (dispatch_balanced others hinv now alloc plugin req res).1
  | complete upstream res => exact (complete_counts (o := o) others hinv now alloc upstream res).1
  | cancel slot => exact (cancel_counts (o := o) hinv slot).1
  | finish net alloc' dns max res =>
    exact (finish_counts (o := o) others hinv now alloc net alloc' dns max res).1

/-- A call keeps the count exactly when it does not leak. -/
theorem openaiStep_counted_iff (o : P) (others : P → Option (EdgePluginVtbl ω))
    (w : OpenaiWorld P ω) (op : OpenaiOp P) (hinv : OpenaiInv w.host) (hc : OpenaiCounted o w) :
    OpenaiCounted o (openaiStep o others w op) ↔ ¬ Leaks o w.host op.call := by
  rw [openaiCounted_iff] at hc ⊢
  obtain ⟨now, alloc, call⟩ := op
  cases call with
  | dispatch plugin req res =>
    obtain ⟨-, n, hcount, howned⟩ :=
      dispatch_balanced (o := o) others hinv now alloc plugin req res
    refine iff_of_true ?_ id
    show _ = _
    exact hcount.trans ((congrArg (· + n) hc).trans howned.symm)
  | complete upstream res =>
    exact iff_of_true ((complete_counts others hinv now alloc upstream res).2 hc) id
  | cancel slot => exact (cancel_counts hinv slot).2 hc
  | finish net alloc' dns max res =>
    exact (finish_counts others hinv now alloc net alloc' dns max res).2 hc

/-- **The count of the proxy over whole runs.** All along a run of the host, with any other plugins,
the proxy's counter is the number of its entries, and it is only busy while it waits for as many
requests as it may, exactly when no call of the run leaks. -/
theorem always_openaiCounted_iff (o : P) (others : P → Option (EdgePluginVtbl ω)) (maxPending : ℕ)
    (state : Option StateStore) (cfg : EdgeOpenaiProxyConfig) (apiKey : Bytes) (x : ω)
    (ops : List (OpenaiOp P)) :
    Always (openaiStep o others) (OpenaiCounted o) (openaiStart maxPending state cfg apiKey x) ops ↔
      EachStep (openaiStep o others) (fun w op => ¬ Leaks o w.host op.call)
        (openaiStart maxPending state cfg apiKey x) ops :=
  always_iff_eachStep (fun w op hinv => openaiStep_inv o others w op hinv)
    (fun w op hinv hc => openaiStep_counted_iff o others w op hinv hc)
    ⟨EdgePendingTable.wellFormed_create _, rfl⟩
    (openaiCounted_iff.mpr (EdgePendingTable.owned_create _ o).symm) ops

/-! ## A cancelled request -/

/-- The proxy as configured by default, but enabled and for one request at a time. -/
def oneRequestCfg : EdgeOpenaiProxyConfig :=
  { edgeOpenaiProxyConfigDefaults with enabled := true, maxConcurrentPerPrincipal := 1 }

/-- An employee asks for the list of models. -/
def modelsReq : EdgeHttpReq where
  method := bytes "GET"
  path := bytes "/v1/models"
  query := none
  headers := []
  body := []
  principal := some { authenticated := true, sub := bytes "e", roles := 1, exp := 0 }
  inboundSlot := 3

/-- The request is dispatched, and its connection goes away. -/
def abandonedOps : List (OpenaiOp Unit) :=
  [⟨1000, true, .dispatch (some ()) modelsReq emptyRes⟩, ⟨1001, true, .cancel 3⟩]

/-- The proxy still counts the cancelled request, and stays busy with an empty table. -/
theorem not_always_openaiCounted_abandoned :
    ¬ Always (openaiStep () fun _ => none) (OpenaiCounted ())
      (openaiStart 4 none oneRequestCfg (bytes "sk") ()) abandonedOps := fun h =>
  absurd h.last.1 (by decide +kernel)

/-- A new request is then refused although nothing is outstanding. -/
example :
    let w := runFrom (openaiStep () fun _ => none)
      (openaiStart 4 none oneRequestCfg (bytes "sk") ()) abandonedOps
    w.mem.1.Busy ∧ w.host.pending.owned () = 0 := by decide +kernel

end Edgehost
