import Edgehost.Host.StreamLaws

/-!
# Runs of the writers

Sequences of writes through every way into the store: the state API, notifications, scrapes, and the
plugins' own `state_put`, which tells no subscriber.

* `delivers_of_not_pluginPut` — what one write owes the subscribers.
* `streams_of_no_pluginPut`   — a run in which no plugin's accepted `state_put` has a subscriber sends
  every subscriber one message for each accepted change, in order.
-/

namespace Edgehost

variable {η P υ : Type*}

/-! ## Writes -/

/-- A write through one of the ways into the store, when the hub finds memory. -/
inductive IngestOp (η P υ : Type*)
  | rest (env : ServeEnv η P υ) (s : EdgeHttp1Serve η) (outCap : ℕ)
      (hrid : s.requestId.length < EDGE_WS_REQUEST_ID) (halloc : ∀ i, env.hubAlloc i)
  | notify (json : Bytes)
  | scrape (env : ScrapeEnv) (cfg : EdgePqSidecarConfig) (halloc : ∀ i, env.hubAlloc i)
  | statePut (ns key value : Option Bytes)

namespace IngestOp

/-- The process after the write. A plugin's put goes through the plugin host, if there is one. -/
def run (w : ServeWorld P υ) : IngestOp η P υ → ServeWorld P υ
  | rest env s outCap _ _ => stateWorld env s w outCap
  | notify json => (WriterCall.notify (η := η) (fun _ => true) json).run w
  | scrape env cfg _ => (WriterCall.scrape (η := η) env cfg).run w
  | statePut ns key value =>
    match w.plugins with
    | none => w
    | some h => afterHost w ⟨(apiStatePut (hostOver w h) ns key value).1, w.mem, ⟨0, [], [], none, 0, 0⟩, 0⟩

/-- The change that the write asks the store for. -/
def change (w : ServeWorld P υ) : IngestOp η P υ → Option StateChange
  | rest _ s _ _ _ => restChange s
  | notify json => notifyChange json
  | scrape env cfg _ => scrapeChange env cfg
  | statePut ns key value =>
    match w.plugins.bind EdgePluginHost.state, ns, key, value with
    | some _, some ns, some key, some value => some ⟨ns, key, some value⟩
    | _, _, _, _ => none

end IngestOp

/-- The queue of a subscriber. -/
def ServeWorld.queue (w : ServeWorld P υ) (i : ℕ) : Option (List Bytes) :=
  w.hub.bind fun h => h.queue i

/-- A plugin's put that the store accepts while there is a subscriber. -/
def IngestOp.PluginPut (w : ServeWorld P υ) : IngestOp η P υ → Prop
  | statePut ns key value =>
    (∃ c st, (statePut ns key value : IngestOp η P υ).change w = some c ∧ w.store = some st ∧
      (c.apply st).2 = .ok) ∧ ∃ i q, w.queue i = some q
  | _ => False

/-- Messages that go into a queue one after another. -/
def enqueueAll (msgs : List Bytes) (q : List Bytes) : List Bytes :=
  msgs.foldl (fun q m => enqueue m q) q

theorem enqueueAll_append (a b : List Bytes) (q : List Bytes) :
    enqueueAll (a ++ b) q = enqueueAll b (enqueueAll a q) :=
  List.foldl_append

/-- What holds all along a run: a sound store whose values are short, and a sound hub. -/
structure IngestWF (w : ServeWorld P υ) : Prop where
  store : ∃ st, w.store = some st ∧ st.WF ∧ st.maxValue ≤ EDGE_STATE_VALUE_DEFAULT
  hub : ∃ h, w.hub = some h ∧ h.WF

/-- What one write owes the subscribers: every queue gets the same messages, and when the store
accepts the change these are one message that announces it. -/
def Delivers (w : ServeWorld P υ) (op : IngestOp η P υ) (msgs : List Bytes) : Prop :=
  (∀ i, (op.run w).queue i = (w.queue i).map (enqueueAll msgs)) ∧
    ∀ c st, op.change w = some c → w.store = some st → (c.apply st).2 = .ok →
      ∃ rid, msgs = [c.text rid]

/-- What a run owes the subscribers, write by write. -/
def Streams : ServeWorld P υ → List (IngestOp η P υ) → List (List Bytes) → Prop
  | _, [], sent => sent = []
  | w, op :: ops, sent =>
    ∃ msgs rest, sent = msgs :: rest ∧ Delivers w op msgs ∧ Streams (op.run w) ops rest

/-- **What a subscriber finds after a run**: the messages of all writes, in their order. -/
theorem Streams.queue {w : ServeWorld P υ} {ops : List (IngestOp η P υ)} {sent : List (List Bytes)}
    (h : Streams w ops sent) (i : ℕ) :
    (runFrom (fun w op => IngestOp.run w op) w ops).queue i
      = (w.queue i).map (enqueueAll sent.flatten) := by
  induction ops generalizing w sent with
  | nil =>
    obtain rfl : sent = [] := h
    exact Option.map_id'.symm
  | cons op ops ih =>
    obtain ⟨msgs, rest, rfl, hdelivers, hrest⟩ := h
    rw [runFrom_cons, ih hrest, hdelivers.1 i, Option.map_map, List.flatten_cons]
    exact congrArg (Option.map · _) (funext fun q => (enqueueAll_append msgs rest.flatten q).symm)

/-! ## One write -/

theorem queue_eq_of_subs {h h' : EdgeWsHub} (heq : h'.subs = h.subs) (i : ℕ) :
    h'.queue i = h.queue i := by
  unfold EdgeWsHub.queue
  rw [heq]

theorem EdgeWsHub.wf_of_subs {h h' : EdgeWsHub} (heq : h'.subs = h.subs) (hwf : h.WF) : h'.WF := by
  unfold EdgeWsHub.WF
  rwa [heq]

/-- A broadcast that fits, as the subscribers see it. -/
theorem broadcast_delivers {c : StateChange} {rid : Bytes} {h h₁ : EdgeWsHub} {alloc : ℕ → Bool}
    (hwf : h.WF) (hsubs : h₁.subs = h.subs) (halloc : ∀ i, alloc i)
    (hfits : StateChangedFits EDGE_WS_MSG_MAX c.ns c.key c.op c.value (some rid)) :
    ∃ h', c.broadcast (some h₁) alloc rid = some h' ∧ h'.WF
      ∧ ∀ i, h'.queue i = (h.queue i).map (enqueue (c.text rid)) := by
  have hwf₁ := EdgeWsHub.wf_of_subs hsubs hwf
  refine ⟨_, broadcast_of_fits hfits, hwf₁.push _ _, fun i => ?_⟩
  rw [hwf₁.queue_push _ halloc, queue_eq_of_subs hsubs]

/-- An accepted change has a short value. -/
theorem value_le_of_ok {c : StateChange} {st : StateStore}
    (hmax : st.maxValue ≤ EDGE_STATE_VALUE_DEFAULT) (hok : (c.apply st).2 = .ok) :
    (c.value.getD []).length ≤ EDGE_STATE_VALUE_DEFAULT := by
  obtain ⟨ns, key, _ | value⟩ := c
  · exact Nat.zero_le _
  · exact le_trans (edgeStatePut_ok_args hok).2.2 hmax

/-- A change keeps the store sound and its limit on values. -/
theorem wf_apply {st : StateStore} (hwf : st.WF) (hmax : st.maxValue ≤ EDGE_STATE_VALUE_DEFAULT)
    (c : StateChange) :
    (c.apply st).1.WF ∧ (c.apply st).1.maxValue ≤ EDGE_STATE_VALUE_DEFAULT := by
  obtain ⟨hwf', hlimits⟩ := c.apply_refines hwf
  exact ⟨hwf', le_of_eq_of_le (congrArg StateLimits.maxValue hlimits) hmax⟩

/-- **What a writer's effect delivers.** -/
theorem delivers_of_effect {w w' : ServeWorld P υ} {st st' : StateStore} {h : EdgeWsHub}
    {alloc : ℕ → Bool} {change : Option StateChange} (hwf : st.WF)
    (hmax : st.maxValue ≤ EDGE_STATE_VALUE_DEFAULT) (hst : w.store = some st) (hh : w.hub = some h)
    (hhub : h.WF) (halloc : ∀ i, alloc i) (hst' : w'.store = some st')
    (heffect : WriterEffect alloc st w.hub change st' w'.hub) :
    IngestWF w' ∧ ∃ msgs, (∀ i, w'.queue i = (w.queue i).map (enqueueAll msgs)) ∧
      ∀ c st, change = some c → w.store = some st → (c.apply st).2 = .ok →
        ∃ rid, msgs = [c.text rid] := by
  generalize hw' : w'.hub = hub' at heffect
  rw [hh] at heffect
  cases heffect with
  | quiet hrefused hsubs =>
    cases hub' with
    | none => exact nomatch hsubs
    | some h' =>
      have hsame : h'.subs = h.subs := Option.some.inj hsubs
      refine ⟨⟨⟨st, hst', hwf, hmax⟩, h', hw', EdgeWsHub.wf_of_subs hsame hhub⟩, [], fun i => ?_, ?_⟩
      · rw [ServeWorld.queue, ServeWorld.queue, hw', hh, Option.bind_some, Option.bind_some,
          queue_eq_of_subs hsame]
        exact Option.map_id'.symm
      · intro c st₂ hc hst₂ hok
        obtain rfl := Option.some.inj (hst.symm.trans hst₂)
        exact absurd hok (hrefused c hc)
  | @written c hub₁ rid hok hsubs hrid hns hkey =>
    cases hub₁ with
    | none => exact nomatch hsubs
    | some h₁ =>
      obtain ⟨h', hbroadcast, hwf', hqueue⟩ := broadcast_delivers hhub (Option.some.inj hsubs) halloc
        (fits_of_bounds hns hkey (value_le_of_ok hmax hok) hrid)
      obtain ⟨hwfst, hmax'⟩ := wf_apply hwf hmax c
      refine ⟨⟨⟨_, hst', hwfst, hmax'⟩, h', hw'.trans hbroadcast, hwf'⟩, [c.text rid], fun i => ?_, ?_⟩
      · rw [ServeWorld.queue, ServeWorld.queue, hw', hbroadcast, hh]
        exact hqueue i
      · intro c₂ st₂ hc _ _
        obtain rfl := Option.some.inj hc
        exact ⟨rid, rfl⟩

/-- A plugin's put changes the store at most by the change it asks for, and no queue. -/
theorem statePut_run {w : ServeWorld P υ} {st : StateStore} (hst : w.store = some st)
    (ns key value : Option Bytes) :
    let op : IngestOp η P υ := .statePut ns key value
    (op.run w).hub = w.hub ∧
      (op.run w).store = some (((op.change w).map fun c => (c.apply st).1).getD st) := by
  dsimp only
  unfold IngestOp.run IngestOp.change
  cases hplugins : w.plugins with
  | none => exact ⟨rfl, hst⟩
  | some h =>
    refine ⟨rfl, ?_⟩
    dsimp only [afterHost, Option.bind_some]
    rw [hst, Option.map_some]
    have hover : (hostOver w h).state = h.state.map fun _ => st := by
      unfold hostOver
      rw [hst]
    unfold apiStatePut
    rw [hover]
    -- Without a store of its own, or with a null argument, the host puts nothing.
    have hquiet : some ((hostOver w h).state.getD st) = some st := by
      rw [hover]
      cases h.state <;> rfl
    cases hstate : h.state with
    | none => exact hquiet
    | some st₀ =>
      cases ns with
      | none => exact hquiet
      | some ns =>
        cases key with
        | none => exact hquiet
        | some key =>
          cases value with
          | none => exact hquiet
          | some value =>
            dsimp only [Option.map_some, Option.getD_some, StateChange.apply]
            rcases edgeStatePut st ns key value with ⟨st', er⟩
            cases er <;> rfl

section Write

variable {w : ServeWorld P υ} {st : StateStore} {h : EdgeWsHub} (hst : w.store = some st) (hwf : st.WF)
  (hmax : st.maxValue ≤ EDGE_STATE_VALUE_DEFAULT) (hh : w.hub = some h) (hhub : h.WF)

include hst hwf hmax hh hhub

/-- A notification announces the change it makes. -/
theorem delivers_notify (json : Bytes) :
    IngestWF ((IngestOp.notify json : IngestOp η P υ).run w) ∧
      ∃ msgs, Delivers w (IngestOp.notify json : IngestOp η P υ) msgs := by
  have heffect := edgeNotifyApply_effect st w.hub (fun _ => true) json
  have hrun : (IngestOp.notify json : IngestOp η P υ).run w
      = { w with
          store := some (edgeNotifyApply st w.hub (fun _ => true) json).1
          hub := (edgeNotifyApply st w.hub (fun _ => true) json).2.1 } := by
    unfold IngestOp.run WriterCall.run
    rw [hst]
  unfold Delivers
  rw [hrun]
  exact delivers_of_effect hwf hmax hst hh hhub (fun _ => rfl) rfl heffect

/-- A scrape announces the health it stores. -/
theorem delivers_scrape (env : ScrapeEnv) (cfg : EdgePqSidecarConfig) (halloc : ∀ i, env.hubAlloc i) :
    IngestWF ((IngestOp.scrape env cfg halloc : IngestOp η P υ).run w) ∧
      ∃ msgs, Delivers w (IngestOp.scrape env cfg halloc : IngestOp η P υ) msgs := by
  have hrun : (IngestOp.scrape env cfg halloc : IngestOp η P υ).run w
      = { w with
          store := some (edgePqSidecarScrapeOnce env cfg st w.hub).1
          hub := (edgePqSidecarScrapeOnce env cfg st w.hub).2.1 } := by
    unfold IngestOp.run WriterCall.run
    rw [hst]
  unfold Delivers
  rw [hrun]
  by_cases hfailed : FailedRefused env cfg st
  · -- The message is sent although the put was refused.
    obtain ⟨health, hhealth, hrefused⟩ := hfailed
    obtain ⟨hub₁, rid, hsubs, hrid, heq⟩ := broadcastHealth_eq env w.hub health
    rw [scrape_failedRefused hhealth hrefused, heq]
    rw [hh] at hsubs
    obtain ⟨h₁, rfl, hsame⟩ := Option.map_eq_some_iff.mp hsubs
    obtain ⟨h', hbroadcast, hwf', hqueue⟩ := broadcast_delivers hhub hsame halloc
      (fits_of_bounds (c := ⟨bytes "net.core", healthKey, some health⟩)
        (show (bytes "net.core").length < 64 by decide)
        (show healthKey.length < EDGE_STATE_KEY_MAX by decide)
        (le_trans (length_scrapeHealth_down hhealth) (by decide)) hrid)
    refine ⟨⟨⟨st, rfl, hwf, hmax⟩, h', hbroadcast, hwf'⟩,
      [StateChange.text ⟨bytes "net.core", healthKey, some health⟩ rid], fun i => ?_, ?_⟩
    · rw [ServeWorld.queue, ServeWorld.queue, hbroadcast, hh]
      exact hqueue i
    · intro c st₂ hc hst₂ hok
      obtain rfl := Option.some.inj (hst.symm.trans hst₂)
      obtain rfl := Option.some.inj ((scrapeChange_of_health hhealth).symm.trans hc)
      exact absurd hok hrefused
  · exact delivers_of_effect hwf hmax hst hh hhub halloc rfl (scrape_effect env cfg st w.hub hfailed)

/-- A plugin's put owes nobody a message when the store refuses it or nobody listens. -/
theorem delivers_statePut (ns key value : Option Bytes)
    (hnot : ¬(IngestOp.statePut ns key value : IngestOp η P υ).PluginPut w) :
    IngestWF ((IngestOp.statePut ns key value : IngestOp η P υ).run w) ∧
      ∃ msgs, Delivers w (IngestOp.statePut ns key value : IngestOp η P υ) msgs := by
  obtain ⟨hhub', hstore'⟩ := statePut_run (η := η) hst ns key value
  have hqueue : ∀ i, ((IngestOp.statePut ns key value : IngestOp η P υ).run w).queue i
      = w.queue i := by
    intro i
    rw [ServeWorld.queue, ServeWorld.queue, hhub']
  by_cases haccepted : ∃ c st, (IngestOp.statePut ns key value : IngestOp η P υ).change w = some c
      ∧ w.store = some st ∧ (c.apply st).2 = .ok
  · -- There is nobody to tell.
    obtain ⟨c, st₂, hc, hst₂, hok⟩ := haccepted
    obtain rfl := Option.some.inj (hst.symm.trans hst₂)
    have hnobody : ∀ i, w.queue i = none := fun i => by
      by_contra hsome
      exact hnot ⟨⟨c, st, hc, hst, hok⟩, i, Option.ne_none_iff_exists'.mp hsome⟩
    obtain ⟨hwf', hmax'⟩ := wf_apply hwf hmax c
    rw [hc, Option.map_some, Option.getD_some] at hstore'
    refine ⟨⟨⟨_, hstore', hwf', hmax'⟩, h, hhub'.trans hh, hhub⟩, [c.text []], fun i => ?_, ?_⟩
    · rw [hqueue, hnobody, Option.map_none]
    · intro c₂ st₂ hc₂ _ _
      obtain rfl := Option.some.inj (hc.symm.trans hc₂)
      exact ⟨[], rfl⟩
  · have hsame : ((IngestOp.statePut ns key value : IngestOp η P υ).run w).store = some st := by
      rw [hstore']
      cases hc : (IngestOp.statePut ns key value : IngestOp η P υ).change w with
      | none => rfl
      | some c => exact congrArg some (c.apply_of_ne_ok fun hok => haccepted ⟨c, st, hc, hst, hok⟩)
    refine ⟨⟨⟨st, hsame, hwf, hmax⟩, h, hhub'.trans hh, hhub⟩, [], fun i => ?_, ?_⟩
    · rw [hqueue]
      exact Option.map_id'.symm
    · intro c st₂ hc hst₂ hok
      exact absurd ⟨c, st₂, hc, hst₂, hok⟩ haccepted

end Write

/-- **What one write owes the subscribers**, unless it is a plugin's put that the store accepts. -/
theorem delivers_of_not_pluginPut {w : ServeWorld P υ} (hw : IngestWF w) (op : IngestOp η P υ)
    (hnot : ¬op.PluginPut w) : IngestWF (op.run w) ∧ ∃ msgs, Delivers w op msgs := by
  obtain ⟨⟨st, hst, hwf, hmax⟩, h, hh, hhub⟩ := hw
  cases op with
  | rest env s outCap hrid halloc =>
    obtain ⟨st', hst', heffect⟩ := @dispatchState_effect η P υ env s w outCap st hst hrid
    exact delivers_of_effect hwf hmax hst hh hhub halloc hst' heffect
  | notify json => exact delivers_notify hst hwf hmax hh hhub json
  | scrape env cfg halloc => exact delivers_scrape hst hwf hmax hh hhub env cfg halloc
  | statePut ns key value => exact delivers_statePut hst hwf hmax hh hhub ns key value hnot

/-- **A run in which no plugin's accepted `state_put` has a subscriber sends every subscriber one message
for each accepted change, in the order of the changes.** -/
theorem streams_of_no_pluginPut {w : ServeWorld P υ} (hw : IngestWF w) (ops : List (IngestOp η P υ))
    (hops : EachStep (fun w op => IngestOp.run w op) (fun w op => ¬op.PluginPut w) w ops) :
    ∃ sent, Streams w ops sent ∧
      ∀ i, (runFrom (fun w op => IngestOp.run w op) w ops).queue i
        = (w.queue i).map (enqueueAll sent.flatten) := by
  have hsent : ∃ sent, Streams w ops sent := by
    induction ops generalizing w with
    | nil => exact ⟨[], rfl⟩
    | cons op ops ih =>
      obtain ⟨hw', msgs, hmsgs⟩ := delivers_of_not_pluginPut hw op hops.1
      obtain ⟨rest, hrest⟩ := ih hw' hops.2
      exact ⟨msgs :: rest, msgs, rest, rfl, hmsgs, hrest⟩
  obtain ⟨sent, hstreams⟩ := hsent
  exact ⟨sent, hstreams, hstreams.queue⟩

/-! ## A plugin's put -/

/-- A process with a plugin host over its store and one subscriber. -/
def pluginWorld (st : StateStore) : ServeWorld Unit Unit :=
  { watchedWorld st with plugins := some (edgePluginHostCreate 1 (some st)) }

/-- A plugin's put of one value. -/
def doorPut : IngestOp Unit Unit Unit :=
  .statePut (some (bytes "net.core")) (some (bytes "door")) (some (bytes "1"))

theorem pluginWorld_wf : IngestWF (pluginWorld healthStore) :=
  ⟨⟨_, rfl, (edgeStateCreateWithConfig_fresh _).1, by decide⟩, _, rfl, oneSub_wf⟩

theorem streams_downScrape :
    ∃ sent, Streams (pluginWorld healthStore)
        [(.scrape downScrape proxyCfg fun _ => rfl : IngestOp Unit Unit Unit)] sent ∧
      ∀ i, (runFrom (fun w op => IngestOp.run w op) (pluginWorld healthStore)
          [(.scrape downScrape proxyCfg fun _ => rfl : IngestOp Unit Unit Unit)]).queue i
        = ((pluginWorld healthStore).queue i).map (enqueueAll sent.flatten) :=
  streams_of_no_pluginPut pluginWorld_wf _ ⟨id, trivial⟩

/-- The subscriber does not hear of a value that a plugin stores. -/
theorem not_streams_doorPut : ¬∃ sent, Streams (pluginWorld healthStore) [doorPut] sent := by
  rintro ⟨_, msgs, _, -, ⟨hqueue, haccepted⟩, -⟩
  obtain ⟨rid, rfl⟩ := haccepted ⟨bytes "net.core", bytes "door", some (bytes "1")⟩ healthStore rfl rfl
    (by decide +kernel)
  have hhub : (doorPut.run (pluginWorld healthStore)).hub = (pluginWorld healthStore).hub :=
    (statePut_run (w := pluginWorld healthStore) rfl _ _ _).1
  have hsame := hqueue 0
  rw [ServeWorld.queue, hhub] at hsame
  exact nomatch Option.some.inj hsame

end Edgehost
