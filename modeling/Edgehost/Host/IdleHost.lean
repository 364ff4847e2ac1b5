import Edgehost.Host.PluginRequests
import Edgehost.Host.PluginRuns
import Edgehost.Host.StreamSlots

/-!
# The plugin host between the turns

A request for a plugin is served in one turn of the loop: what the plugin asks the host to fetch is
fetched before the turn ends. So the host waits for nothing between the turns, however the fetching goes.

* `Idle`                — a host that waits for nothing.
* `dispatch_idle`       — a dispatch leaves it so, or waiting for the one request of its plugin.
* `finish_idle`         — what it waits for is over with `edge_plugin_host_finish_pending_sync`.
* `started_idle`        — the host is idle in every state of every run over plain TCP.
-/

namespace Edgehost

variable {η P υ ω χ : Type*}

/-! ## Empty tables -/

/-- A table without entries, and with room for one. -/
structure EdgePendingTable.Empty (t : EdgePendingTable P) : Prop where
  wellFormed : t.WellFormed
  vacant : ∀ id, t.outbound id = none
  room : 0 < t.slots.length

namespace EdgePendingTable.Empty

variable {t : EdgePendingTable P}

theorem unused (ht : t.Empty) {e : EdgePendingEntry P} (he : e ∈ t.slots) : e.used = false := by
  by_contra hused
  have hsome := ht.wellFormed.outbound_eq_some_iff.mpr ⟨he, by simpa using hused, rfl⟩
  rw [ht.vacant] at hsome
  cases hsome

/-- No request of any inbound slot waits. -/
theorem findInbound (ht : t.Empty) (slot : UInt32) : edgePendingFindInbound t slot = none :=
  SlotView.locate_eq_none.mpr (inboundView.find_eq_none.mpr fun _ he hlive =>
    absurd hlive (by simp [inboundView, ht.unused he]))

theorem count (ht : t.Empty) : t.count = 0 := by
  rw [ht.wellFormed.count_eq, List.countP_eq_zero]
  intro e he
  rw [ht.unused he]
  exact Bool.false_ne_true

theorem not_full (ht : t.Empty) : edgePendingFull t = false := by
  rw [edgePendingFull, ht.count]
  exact decide_eq_false (Nat.not_le.mpr ht.room)

/-- An entry that comes and goes leaves nothing. -/
theorem insert_release (ht : t.Empty) {slot : UInt32} {id : UInt64} {p : P} {tag : UInt64}
    {timeout : UInt32} (hacc : t.Accepts slot id) {i : ℕ} {e : EdgePendingEntry P}
    (hfind : edgePendingFindOutbound (edgePendingInsert t slot id (some p) tag timeout 0 none).1 id
      = some (i, e)) :
    (edgePendingRelease (edgePendingInsert t slot id (some p) tag timeout 0 none).1 i).Empty := by
  obtain ⟨hwf, hout⟩ := ht.wellFormed.insert p tag timeout 0 none hacc
  obtain ⟨he, hused, hid, -⟩ := findOutbound_eq_some hfind
  obtain ⟨hwf', hout'⟩ := hwf.release he hused
  refine ⟨hwf', fun id' => ?_, ?_⟩
  · rw [hout', hout, hid]
    split_ifs
    · rfl
    · exact ht.vacant id'
  · obtain ⟨-, j, old, -, -, heq⟩ | ⟨hno, -⟩ := insert_cases t slot id p tag timeout 0 none
    · rw [heq] at he ⊢
      simp only [edgePendingRelease, he, hused, Bool.not_true, Bool.false_eq_true, if_false,
        List.length_set]
      exact ht.room
    · exact absurd hacc hno

/-- An accepted entry is found. -/
theorem findOutbound_insert (ht : t.Empty) {slot : UInt32} {id : UInt64} (p : P) (tag : UInt64)
    (timeout : UInt32) (hacc : t.Accepts slot id) :
    ∃ ie, edgePendingFindOutbound (edgePendingInsert t slot id (some p) tag timeout 0 none).1 id
      = some ie := by
  refine Option.ne_none_iff_exists'.mp fun hnone => ?_
  have hout := (ht.wellFormed.insert p tag timeout 0 none hacc).2 id
  rw [if_pos rfl] at hout
  rw [edgePendingFindOutbound, if_neg hacc.1, SlotView.locate_eq_none,
    ← SlotView.lookup_eq_none_iff] at hnone
  rw [outbound, hnone] at hout
  cases hout

end EdgePendingTable.Empty

theorem empty_create (capacity : ℕ) : (edgePendingCreate (P := P) capacity).Empty where
  wellFormed := EdgePendingTable.wellFormed_create capacity
  vacant := EdgePendingTable.outbound_create capacity
  room := by
    rw [edgePendingCreate, List.length_replicate]
    split_ifs with h
    · decide
    · exact Nat.pos_of_ne_zero h

/-! ## A callback -/

/-- What a callback has done to a host with the table `t` so far: nothing, or one request was accepted. -/
inductive AskedOnce (t : EdgePendingTable P) (h : EdgePluginHost P) : Prop
  | no (hpending : h.pending = t) (hstarted : h.clientReqStarted = false)
  | one {slot : UInt32} {p : P} {tag : UInt64} {timeout : UInt32}
      (hacc : t.Accepts slot h.lastOutboundId)
      (hpending : h.pending
        = (edgePendingInsert t slot h.lastOutboundId (some p) tag timeout 0 none).1)
      (hstarted : h.clientReqStarted = true) (hlast : h.hasLastReq = true)

theorem AskedOnce.answered {t : EdgePendingTable P} {h : EdgePluginHost P} (hasked : AskedOnce t h)
    (q : ApiCall) : AskedOnce t (apiAnswer h q).1 := by
  cases hasked with
  | one hacc hpending hstarted hlast =>
    -- A second request is refused, and no other call touches these members.
    rw [apiAnswer_settled (.inr hstarted)]
    exact .one hacc hpending hstarted hlast
  | no hpending hstarted =>
    have heffect := apiAnswer_effect h q
    by_cases hreply : ∃ id, (apiAnswer h q).2 = .accepted id
    · have hacceptable := heffect.accepted_iff.mp hreply
      obtain ⟨id, hid⟩ := hreply
      cases q with
      | httpClientRequest req outId alloc =>
        cases req with
        | none => exact absurd hacceptable (by simp [Acceptable])
        | some req =>
          obtain ⟨plugin, -, hrc, -, pending, hins, heq⟩ := accepted_eq hid
          have hsame : (storeLastReq h req alloc).1.pending = t :=
            (congrArg DispatchState.pending (storeLastReq_dispatchState h req alloc)).trans hpending
          rw [hsame] at hins
          obtain ⟨method, url, -, -, hstore⟩ := storeLastReq_eq hrc
          rw [heq]
          obtain ⟨hacc, -⟩ | ⟨-, hrefused⟩ := EdgePendingTable.insert_cases t
            (storeLastReq h req alloc).1.activeInboundSlot id plugin req.userTag req.timeoutMs 0 none
          · exact .one hacc (congrArg Prod.fst hins).symm rfl (by rw [hstore]; rfl)
          · rw [hrefused] at hins
            exact absurd (Prod.mk.inj hins).2 (by decide)
      | _ => exact absurd hacceptable (by simp [Acceptable])
    · have heff := heffect.effect
      generalize hs : (apiAnswer h q).1.dispatchState = s', (apiAnswer h q).2 = reply
        at heff hreply
      have hpending' : (apiAnswer h q).1.pending = s'.pending :=
        congrArg DispatchState.pending hs
      have hstarted' : (apiAnswer h q).1.clientReqStarted = s'.clientReqStarted :=
        congrArg DispatchState.clientReqStarted hs
      cases heff with
      | none => exact .no (hpending'.trans hpending) (hstarted'.trans hstarted)
      | mintedOnly => exact .no (hpending'.trans hpending) (hstarted'.trans hstarted)
      | accepted => exact absurd ⟨_, rfl⟩ hreply

theorem AskedOnce.run {ρ : Type*} {t : EdgePendingTable P} {h : EdgePluginHost P}
    (hasked : AskedOnce t h) (c : Client ApiCall ApiReply ρ) : AskedOnce t (c.run apiAnswer h).1 :=
  Client.run_closed (T := fun a b => AskedOnce t a → AskedOnce t b) (fun _ => id)
    (fun hab hbc ha => hbc (hab ha)) (fun _ q ha => ha.answered q) c h hasked

/-! ## A request of a plugin -/

/-- A host that waits for nothing. -/
structure Idle (h : EdgePluginHost P) : Prop where
  empty : h.pending.Empty
  outside : h.activeInOnHttp = false

/-- A host that waits for the request that it holds. -/
structure AwaitsOne (h : EdgePluginHost P) : Prop where
  entry : ∃ t : EdgePendingTable P, t.Empty ∧ ∃ slot p tag timeout, t.Accepts slot h.lastOutboundId ∧
    h.pending = (edgePendingInsert t slot h.lastOutboundId (some p) tag timeout 0 none).1
  held : h.hasLastReq = true
  outside : h.activeInOnHttp = false

/-- A plugin that waits for what it has asked for. -/
def PluginWaits (vtbl : P → Option (EdgePluginVtbl υ)) : Prop :=
  ∀ p onHttp, httpHandler vtbl (some p) = some (p, onHttp) → ∀ req res mem (h : EdgePluginHost P),
    h.clientReqStarted = false → PendingOrQuiet (onHttp req res mem) h

/-- **A dispatch leaves an idle host idle, or waiting for the one request of its plugin.** -/
theorem dispatch_idle {vtbl : P → Option (EdgePluginVtbl υ)} (hwaits : PluginWaits vtbl)
    {h : EdgePluginHost P} (hidle : Idle h) (mem : υ) (p : P) (req : EdgeHttpReq) (res : EdgeHttpRes) :
    let r := edgePluginHostDispatchHttp vtbl h mem (some p) req res
    (r.status ≠ EDGE_PLUGIN_PENDING ∧ Idle r.host) ∨
      (r.status = EDGE_PLUGIN_PENDING ∧ AwaitsOne r.host) := by
  intro r
  cases hh : httpHandler vtbl (some p) with
  | none =>
    obtain ⟨hhost, -, hstatus⟩ := dispatch_refused vtbl h mem (some p) req res (.inl hh)
    refine .inl ⟨?_, ?_⟩
    · rw [show r.status = _ from hstatus]
      decide
    · rw [show r.host = _ from hhost]
      exact hidle
  | some handler =>
    obtain ⟨p', onHttp⟩ := handler
    obtain rfl : p = p' := by
      simp only [httpHandler, Option.bind_eq_some_iff, Option.ite_none_right_eq_some,
        Option.map_eq_some_iff, Prod.mk.injEq] at hh
      obtain ⟨q, hq, _, _, _, _, _, hqp, _⟩ := hh
      exact (Option.some.inj hq).trans hqp
    have hfree := hidle.empty.findInbound req.inboundSlot
    have hquiet := hwaits p onHttp hh req res mem (enterOnHttp h p req.inboundSlot) rfl
    have hentered : AskedOnce h.pending (enterOnHttp h p req.inboundSlot) := .no rfl rfl
    have hasked := hentered.run (onHttp req res mem)
    have hr : r = _ := dispatch_ran hh hfree
    have hpend := run_pending (onHttp req res mem) (enterOnHttp h p req.inboundSlot) rfl
    rw [PendingOrQuiet, ← acceptedIds_eq_nil_iff] at hquiet
    generalize (onHttp req res mem).run apiAnswer (enterOnHttp h p req.inboundSlot) = ran at *
    generalize acceptedIds (onHttp req res mem) (enterOnHttp h p req.inboundSlot) = ids at *
    obtain ⟨hstatus, -, hhost⟩ := afterOnHttp_spec (leaveOnHttp ran.1 req.inboundSlot) ran.2
      req.inboundSlot
    rw [← hr] at hstatus hhost
    cases hasked with
    | no hpending hstarted =>
      -- Nothing was asked, so PENDING would be an error.
      have hleft : (leaveOnHttp ran.1 req.inboundSlot).pending = h.pending := hpending
      have hhost := hhost (.inl (by rw [hleft]; exact hfree))
      refine .inl ⟨?_, ?_⟩
      · rw [hstatus, show (leaveOnHttp ran.1 req.inboundSlot).clientReqStarted = _ from hstarted]
        exact dispatchStatus_false _
      · rw [hhost]
        exact ⟨by rw [hleft]; exact hidle.empty, rfl⟩
    | one hacc hpending hstarted hlast =>
      -- A request was accepted, so the plugin waits for it.
      have hhost := hhost (.inr hstarted)
      refine .inr ⟨?_, ?_⟩
      · rw [hstatus, show (leaveOnHttp ran.1 req.inboundSlot).clientReqStarted = _ from hstarted,
          dispatchStatus_true_eq_pending_iff]
        refine hquiet.resolve_right fun hnil => ?_
        rcases hpend with ⟨-, hnot, -⟩ | ⟨hids, -, -⟩
        · exact Bool.false_ne_true (hnot.symm.trans hstarted)
        · exact hids hnil
      · rw [hhost]
        exact ⟨⟨h.pending, hidle.empty, _, _, _, _, hacc, hpending⟩, hlast, rfl⟩

/-- **What a host waits for is over once it is finished**, whatever the network and the memory do. -/
theorem finish_idle (vtbl : P → Option (EdgePluginVtbl υ)) {h : EdgePluginHost P}
    (hwaiting : AwaitsOne h) (net : Network) (alloc : Bool) (mem : υ) (allowBlockingDns : Bool)
    (maxUpstreamBody : ℕ) (res : EdgeHttpRes) :
    Idle (edgePluginHostFinishPendingSync vtbl net alloc h mem allowBlockingDns maxUpstreamBody
      res).host := by
  obtain ⟨⟨t, hempty, slot, p, tag, timeout, hacc, hpending⟩, hheld, houtside⟩ := hwaiting
  obtain ⟨⟨i, e⟩, hfind⟩ := hempty.findOutbound_insert p tag timeout hacc
  have hreleased := hempty.insert_release hacc hfind
  rw [← hpending] at hfind hreleased
  unfold edgePluginHostFinishPendingSync edgePluginHostLastClientReq
  simp only [hheld, Bool.not_true, Bool.false_eq_true, if_false]
  rw [if_neg hacc.1]
  cases alloc with
  | false =>
    simp only [Bool.not_false, if_true, releaseOutbound, edgePendingReleaseOutbound, hfind]
    exact ⟨hreleased, houtside⟩
  | true =>
    simp only [Bool.not_true, Bool.false_eq_true, if_false, executeLast]
    generalize hup : pendingUpstream net h _ allowBlockingDns maxUpstreamBody = upstream
    have hid : upstream.outboundId = h.lastOutboundId := by rw [← hup]; rfl
    rw [← hid] at hfind
    have hfound : edgePendingFindOutbound (h.note (.executed h.lastOutboundId)).pending
        upstream.outboundId = some (i, e) := hfind
    cases hhandler : completeHandler vtbl e with
    | none =>
      rw [(complete_unhandled mem res hfound hhandler).1]
      exact ⟨hreleased, houtside⟩
    | some onHttpComplete =>
      obtain ⟨q, hq⟩ := plugin_of_handler hhandler
      have hout : ((h.note (.executed h.lastOutboundId)).note
          (.completeCalled upstream.outboundId q)).activeInOnHttp = false := houtside
      rw [(complete_handled mem res hfound hhandler hq).1, callOnHttpComplete,
        run_keeps (onHttpComplete upstream res mem) (.inl hout)]
      exact ⟨hreleased, houtside⟩

theorem Idle.over {h : EdgePluginHost P} (hidle : Idle h) (w : ServeWorld P υ) :
    Idle (hostOver w h) := by
  unfold hostOver
  cases w.store with
  | none => exact hidle
  | some st => exact ⟨hidle.empty, hidle.outside⟩

/-- **A request of a plugin leaves the host idle.** -/
theorem Idle.afterRun {env : ServeEnv η P υ} (hwaits : PluginWaits env.vtbl) {h : EdgePluginHost P}
    (hidle : Idle h) (s : EdgeHttp1Serve η) (w : ServeWorld P υ) (p : P) :
    Idle (runPlugin env s w h p).host := by
  have hfinal : ∀ r : HostResult P υ, Idle r.host → Idle (if r.res.status = 0 then
      { r with res := { r.res with status := if r.status = EDGE_PLUGIN_OK then 200 else 500 } }
      else r).host := by
    intro r hr
    split_ifs <;> exact hr
  unfold runPlugin
  refine hfinal _ ?_
  generalize hr : edgePluginHostDispatchHttp env.vtbl (hostOver w h) w.mem (some p) _ _ = r
  obtain ⟨req, res, hr⟩ : ∃ req res, edgePluginHostDispatchHttp env.vtbl (hostOver w h) w.mem (some p)
      req res = r := ⟨_, _, hr⟩
  have hcases := dispatch_idle hwaits (hidle.over w) w.mem p req res
  dsimp only at hcases
  rw [hr] at hcases
  rcases hcases with ⟨hstatus, hdone⟩ | ⟨hstatus, hwaiting⟩
  · rw [if_neg hstatus]
    exact hdone
  · rw [if_pos hstatus]
    exact finish_idle env.vtbl hwaiting ..

/-! ## The bundled plugins -/

theorem openaiAsk_waits (alloc : Bool) (req : EdgeHttpReq) (res : EdgeHttpRes) (d : OpenaiData)
    (h : EdgePluginHost P) : PendingOrQuiet (openaiAsk alloc req res d) h := by
  rw [PendingOrQuiet, ← acceptedIds_eq_nil_iff, openaiAsk, acceptedIds_ask, acceptedIds_ret,
    List.append_nil]
  rcases apiHttpClientRequest_reply h (some (upstreamReq d req)) true alloc with hrefused | ⟨id, hid⟩
  · right
    show (apiHttpClientRequest h _ true alloc).2.acceptedId.toList = []
    rw [hrefused]
    rfl
  · left
    show (openaiReplied res d (apiHttpClientRequest h _ true alloc).2).status = EDGE_PLUGIN_PENDING
    rw [hid]
    rfl

theorem openaiOnHttp_waits (now : ℤ) (alloc : Bool) (req : EdgeHttpReq) (res : EdgeHttpRes)
    (d : OpenaiData) (h : EdgePluginHost P) : PendingOrQuiet (openaiOnHttp now alloc req res d) h := by
  have hret : ∀ r : PluginResult OpenaiData, PendingOrQuiet (.ret r) h :=
    fun r => .inr fun _ hx => absurd hx List.not_mem_nil
  unfold openaiOnHttp
  split_ifs
  · exact hret _
  · exact hret _
  · exact hret _
  · exact hret _
  · dsimp only
    split_ifs
    · exact hret _
    · exact hret _
    · exact hret _
    · exact openaiAsk_waits alloc req res _ h

theorem bundled_waits (now : ℤ) (alloc : Bool) : PluginWaits (bundledVtbl now alloc) := by
  intro p onHttp hh req res mem h _
  cases p with
  | openai =>
    obtain rfl : openaiOnHttp now alloc = onHttp := congrArg Prod.snd (Option.some.inj hh)
    exact openaiOnHttp_waits now alloc req res mem h
  | slack => cases hh
  | teams => cases hh

/-! ## Turns of the loop -/

/-- Where the plugins wait for what they ask for, the host is idle between the turns. -/
theorem idle_loopInv (o : LoopOpts η) :
    LoopInv o (fun env _ _ _ _ => PluginWaits env.vtbl) True
      fun (w : ServeWorld P υ) (conns : List (Conn η ω)) =>
        Slotted conns ∧ ∀ h, w.plugins = some h → Idle h where
  slotted h := h.1
  conn h _ hslot _ _ := ⟨h.1.set hslot, h.2⟩
  count _ h := h
  take {io _} slot h := by
    unfold takePending
    cases io.world.hub <;> exact h
  close h _ hslot _ _ := ⟨h.1.set hslot, h.2⟩
  promote h _ hslot _ _ _ _ := ⟨h.1.set hslot, h.2⟩
  feed {w _} env s data outCap h hwaits := by
    refine ⟨h.1, fun host hhost => ?_⟩
    have hafter := feed_plugins env s w data outCap
    rw [hhost] at hafter
    generalize hsome : some host = after at hafter
    cases hafter with
    | same => exact h.2 host hsome.symm
    | ran hplugins s₁ w₁ p =>
      obtain rfl := Option.some.inj hsome
      exact (h.2 _ hplugins).afterRun hwaits s₁ w₁ p
  scrape _ _ h _ _ := h

/-- The plugins that a turn runs are those that come with the host. -/
def LoopEvent.RunsBundled : LoopEvent η BundledPlugin OpenaiData ω → Prop
  | .received env _ _ _ _ => ∃ now alloc, env.serve.vtbl = bundledVtbl now alloc
  | _ => True

theorem LoopEvent.RunsBundled.permits {ev : LoopEvent η BundledPlugin OpenaiData ω}
    (hev : ev.RunsBundled) (o : LoopOpts η) (srv : Server η BundledPlugin OpenaiData ω) :
    Permits (fun env _ _ _ _ => PluginWaits env.vtbl) True o srv ev := by
  cases ev with
  | accepted => trivial
  | sent => trivial
  | timeout => trivial
  | received env slot owner res taken =>
    obtain ⟨now, alloc, hvtbl⟩ := hev
    intro c s data _ _ _ _
    rw [hvtbl]
    exact bundled_waits now alloc

/-- The plugin host of a process that has started is idle. -/
theorem Started.idle {senv : StartEnv χ} {args : StartArgs} {st : Started}
    (hmain : mainStart senv args = some st) {h : EdgePluginHost BundledPlugin}
    (hplugins : st.plugins = some h) : Idle h := by
  have hparts := (startsAs_of_mainStart hmain).parts.plugins
  by_cases hneed : needPluginHost st.cfg
  · rw [if_pos hneed] at hparts
    obtain rfl := Option.some.inj (hplugins.symm.trans hparts.2.1)
    exact ⟨empty_create _, rfl⟩
  · rw [if_neg hneed, hplugins] at hparts
    cases hparts.1

/-- **The plugin host waits for nothing between the turns**: in every state of every run over plain TCP of a
process that has started, whatever its clients ask, the network answers and the memory allows, no inbound
slot waits for an upstream request and the pending table is empty. -/
theorem started_idle {senv : StartEnv χ} {args : StartArgs} {st : Started}
    (hmain : mainStart senv args = some st) {env : RingEnv} {h1 : η} {o : LoopOpts η}
    {srv : Server η BundledPlugin OpenaiData ω} (hstart : edgeIouringStart env st h1 = .plain o srv)
    (evs : List (LoopEvent η BundledPlugin OpenaiData ω)) (hevs : ∀ ev ∈ evs, ev.RunsBundled) :
    Always (loopStep o) (fun srv => ∀ h, srv.io.world.plugins = some h →
      (∀ slot, edgePendingFindInbound h.pending slot = none) ∧ edgePendingFull h.pending = false ∧
        h.pending.count = 0) srv evs := by
  obtain ⟨rfl, rfl⟩ := edgeIouringStart_plain hstart
  have hslotted : Slotted (loopStart (η := η) (ω := ω) 64 (ringWorld env st)).conns :=
    loopStart_slotted 64 _
  have hidle : ∀ h, (ringWorld env st).plugins = some h → Idle h := fun h hh => Started.idle hmain hh
  have hrun := (idle_loopInv (ringOpts st h1)).always_of ⟨hslotted, hidle⟩ evs fun ev hev srv =>
    (hevs ev hev).permits (ringOpts st h1) srv
  refine hrun.mono fun srv hsrv h hh => ?_
  have hempty := (hsrv.2 h hh).empty
  exact ⟨hempty.findInbound, hempty.not_full, hempty.count⟩

theorem started_idle_lab : ∃ (st : Started) (srv : Server Unit BundledPlugin OpenaiData Bytes),
    mainStart labStartEnv labArgs = some st ∧
    edgeIouringStart labRingEnv st () = .plain (ringOpts st ()) srv ∧
    Always (loopStep (ringOpts st ())) (fun srv => ∀ h, srv.io.world.plugins = some h →
      (∀ slot, edgePendingFindInbound h.pending slot = none) ∧ edgePendingFull h.pending = false ∧
        h.pending.count = 0) srv labRun := by
  obtain ⟨st, hst, htls⟩ := Option.map_eq_some_iff.mp labStart_tls
  have hstart := labRing_start htls
  have hbundled : ∀ ev ∈ labRun, ev.RunsBundled := by
    intro ev hev
    simp only [labRun, List.mem_cons, List.not_mem_nil, or_false] at hev
    rcases hev with rfl | rfl | rfl | rfl
    · trivial
    · exact ⟨0, true, rfl⟩
    · trivial
    · trivial
  exact ⟨st, _, hst, hstart, started_idle hst hstart labRun hbundled⟩

end Edgehost
