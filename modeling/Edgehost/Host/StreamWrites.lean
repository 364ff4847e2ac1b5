import Edgehost.Host.NotifyWorks
import Edgehost.Host.PluginReplies
import Edgehost.Host.PqSidecar

/-!
# Writers of the state stream

The three writers that store a change and announce it: the state API of `edge_http1_serve_feed`,
`edge_notify_apply` and `edge_pq_sidecar_scrape_once`. Each is shown to either leave the store and the
queues alone or to apply one change and broadcast it, with the exception of a scrape that fails, which
broadcasts whatever the store says.

* `dispatchState_effect`, `edgeNotifyApply_effect`, `scrape_effect` — what each writer does.
* `dispatch_hub`       — a request touches the queues through the state API only.
* `noPhantom_iff`      — a call announces nothing that was not stored, exactly when it is not a failed
  scrape whose put is refused while a subscriber can take the message.
-/

namespace Edgehost

/-! ## Changes -/

/-- One put or, without a value, one delete. -/
structure StateChange where
  ns : Bytes
  key : Bytes
  value : Option Bytes
  deriving DecidableEq

namespace StateChange

/-- The operation as messages name it. -/
def op (c : StateChange) : Bytes := if c.value.isSome then bytes "put" else bytes "delete"

/-- The change applied to a store. -/
def apply (c : StateChange) (st : StateStore) : StateStore × EdgeStateErr :=
  match c.value with
  | some value => edgeStatePut st c.ns c.key value
  | none => edgeStateDelete st c.ns c.key

/-- The message that announces the change. -/
def text (c : StateChange) (rid : Bytes) : Bytes := stateChangedText c.ns c.key c.op c.value (some rid)

/-- The broadcast of the change. -/
def broadcast (c : StateChange) (hub : Option EdgeWsHub) (alloc : ℕ → Bool) (rid : Bytes) :
    Option EdgeWsHub :=
  broadcastTo hub alloc c.ns c.key c.op c.value rid

/-- The store holds the value of the change under its key, and nothing after a delete. -/
def Stored (c : StateChange) (st : StateStore) : Prop :=
  st.toMap.entry c.ns c.key = c.value

/-- A change that the store refuses leaves it as it was. -/
theorem apply_of_ne_ok {c : StateChange} {st : StateStore} (h : (c.apply st).2 ≠ .ok) :
    (c.apply st).1 = st := by
  unfold apply at h ⊢
  split at h
  · exact edgeStatePut_of_ne_ok h
  · exact edgeStateDelete_of_ne_ok h

theorem apply_refines (c : StateChange) {st : StateStore} (hwf : st.WF) :
    (c.apply st).1.WF ∧ (c.apply st).1.limits = st.limits := by
  obtain ⟨ns, key, _ | value⟩ := c
  · exact ⟨(edgeStateDelete_refines hwf ns key).wf, (edgeStateDelete_refines hwf ns key).limits⟩
  · exact ⟨(edgeStatePut_refines hwf ns key value).wf, (edgeStatePut_refines hwf ns key value).limits⟩

/-- **A change that the store accepts is what it holds afterwards.** -/
theorem stored_of_apply_ok {c : StateChange} {st : StateStore} (hwf : st.WF)
    (h : (c.apply st).2 = .ok) : c.Stored (c.apply st).1 := by
  obtain ⟨ns, key, _ | value⟩ := c
  · have href := edgeStateDelete_refines hwf ns key
    have hret : (st.toMap.delete ns key).2 = .ok := href.ret.symm.trans h
    have hmap : (edgeStateDelete st ns key).1.toMap = (st.toMap.delete ns key).1 := href.toMap
    unfold Stored apply StateMap.entry
    dsimp only
    rw [hmap]
    unfold StateMap.delete at hret ⊢
    rcases hb : st.toMap.lookup ns with _ | b
    · rw [hb] at hret
      cases hret
    · rw [hb] at hret
      dsimp only at hret ⊢
      split_ifs at hret ⊢
      rw [Finmap.lookup_insert]
      exact Finmap.lookup_erase _ _
  · obtain ⟨b, -, hmap⟩ := lookup_of_put_ok hwf h
    unfold Stored apply StateMap.entry
    dsimp only
    rw [hmap, Finmap.lookup_insert]
    exact Finmap.lookup_insert _

end StateChange

/-! ## What a writer does -/

/-- What a writer makes of the change it was asked for: nothing, when there is none or the store refuses
it; else the change is applied and broadcast to the hub, which may have given out a request id before. -/
inductive WriterEffect (alloc : ℕ → Bool) (st : StateStore) (hub : Option EdgeWsHub) :
    Option StateChange → StateStore → Option EdgeWsHub → Prop
  | quiet {c hub'} (hrefused : ∀ c' ∈ c, (StateChange.apply c' st).2 ≠ .ok)
      (hsubs : hub'.map EdgeWsHub.subs = hub.map EdgeWsHub.subs) : WriterEffect alloc st hub c st hub'
  | written {c hub₁} (rid : Bytes) (hok : (StateChange.apply c st).2 = .ok)
      (hsubs : hub₁.map EdgeWsHub.subs = hub.map EdgeWsHub.subs)
      (hrid : rid.length < EDGE_WS_REQUEST_ID) (hns : c.ns.length < 64)
      (hkey : c.key.length < EDGE_STATE_KEY_MAX) :
      WriterEffect alloc st hub (some c) (StateChange.apply c st).1 (c.broadcast hub₁ alloc rid)

variable {η P υ : Type*}

section Answers

variable (s : EdgeHttp1Serve η) (w : ServeWorld P υ) (outCap : ℕ) (status : ℤ)
  (reason ctype extra body : Bytes)

@[simp] theorem answerEx_store :
    (answerEx s w outCap status reason ctype extra body).world.store = w.store := by
  unfold answerEx; split <;> rfl

@[simp] theorem answerEx_hub :
    (answerEx s w outCap status reason ctype extra body).world.hub = w.hub := by
  unfold answerEx; split <;> rfl

@[simp] theorem answer_store :
    (answer s w outCap status reason ctype body).world.store = w.store := answerEx_store ..

@[simp] theorem answer_hub :
    (answer s w outCap status reason ctype body).world.hub = w.hub := answerEx_hub ..

@[simp] theorem answerErr_store (e : EdgeStateErr) :
    (answerErr s w outCap e).world.store = w.store := answer_store ..

@[simp] theorem answerErr_hub (e : EdgeStateErr) :
    (answerErr s w outCap e).world.hub = w.hub := answer_hub ..

end Answers

/-- A denial leaves the world alone, but for the counters. -/
theorem requireRbac_world {s : EdgeHttp1Serve η} {w : ServeWorld P υ} {outCap : ℕ}
    {res : EdgeAuthResource} {r : Served η P υ} (h : requireRbac s w outCap res = some r) :
    r.world.store = w.store ∧ r.world.hub = w.hub := by
  unfold requireRbac at h
  split_ifs at h
  · obtain rfl := Option.some.inj h
    exact ⟨answer_store .., answer_hub ..⟩
  · obtain rfl := Option.some.inj h
    exact ⟨answer_store .., answer_hub ..⟩

/-- A gate that stays shut. -/
def Blocked (s : EdgeHttp1Serve η) (res : EdgeAuthResource) : Prop :=
  authEnforced s ∧ res ≠ .resNone ∧ edgeAuthRbacCheck (some s.principal) res ≠ .allow

instance (s : EdgeHttp1Serve η) (res : EdgeAuthResource) : Decidable (Blocked s res) :=
  inferInstanceAs (Decidable (_ ∧ _ ∧ _))

theorem requireRbac_isSome_iff (s : EdgeHttp1Serve η) (w : ServeWorld P υ) (outCap : ℕ)
    (res : EdgeAuthResource) : (requireRbac s w outCap res).isSome ↔ Blocked s res := by
  unfold requireRbac Blocked
  by_cases henf : authEnforced s
  · by_cases hres : res = .resNone
    · simp [hres]
    · by_cases hauth : s.principal.authenticated
      · by_cases hallow : edgeAuthRbacCheck (some s.principal) res = .allow <;>
          simp [henf, hres, hauth, hallow]
      · simp [henf, hres, hauth, edgeAuthRbacCheck]
  · simp [henf]

/-! ## The state API -/

/-- The change that a request for a state path asks the store for: an admitted PUT with its whole body,
or an admitted DELETE, of one key. -/
def pathChange (s : EdgeHttp1Serve η) (p : StatePath) : Option StateChange :=
  if Blocked s (edgeAuthClassify s.method s.path p.isList) then none
  else if p.isList ∨ p.key = [] then none
  else if s.method = bytes "PUT" then
    match s.bodyOff with
    | none => none
    | some off =>
      if s.contentLength ≥ 0 ∧ ((s.acc.drop off).length : ℤ) < s.contentLength then none
      else some ⟨p.ns, p.key, some (bodyBytes s)⟩
  else if s.method = bytes "DELETE" then some ⟨p.ns, p.key, none⟩
  else none

/-- The change that a request asks the store for. -/
def restChange (s : EdgeHttp1Serve η) : Option StateChange := (pathIsState s.path).bind (pathChange s)

theorem pathIsState_short {path : Bytes} {p : StatePath} (h : pathIsState path = some p) :
    p.ns.length < 64 ∧ p.key.length < EDGE_STATE_KEY_MAX := by
  unfold pathIsState at h
  obtain ⟨-, h⟩ := Option.ite_none_left_eq_some.mp h
  obtain ⟨-, h⟩ := Option.ite_none_left_eq_some.mp h
  obtain ⟨hns, h⟩ := Option.ite_none_left_eq_some.mp h
  push Not at hns
  split at h
  · obtain rfl := Option.some.inj h
    exact ⟨hns.2, show 0 < EDGE_STATE_KEY_MAX by decide⟩
  · obtain ⟨hkey, h⟩ := Option.ite_none_left_eq_some.mp h
    push Not at hkey
    obtain rfl := Option.some.inj h
    exact ⟨hns.2, hkey.2⟩

theorem stateGetRoute_world (s : EdgeHttp1Serve η) (w : ServeWorld P υ) (outCap : ℕ)
    (st : StateStore) (p : StatePath) :
    (stateGetRoute s w outCap st p).world.store = w.store
      ∧ (stateGetRoute s w outCap st p).world.hub = w.hub := by
  unfold stateGetRoute
  split
  · split
    · exact ⟨answerErr_store .., answerErr_hub ..⟩
    · exact ⟨answer_store .., answer_hub ..⟩
  · split
    · exact ⟨answerErr_store .., answerErr_hub ..⟩
    · exact ⟨answer_store .., answer_hub ..⟩

section Rest

variable {env : ServeEnv η P υ} {s : EdgeHttp1Serve η} {w : ServeWorld P υ} {outCap : ℕ}
  {st : StateStore} {p : StatePath}

/-- The answer to a change is what its effect is. -/
theorem answerChange_effect (c : StateChange) (hp : p.ns = c.ns ∧ p.key = c.key)
    (hrid : s.requestId.length < EDGE_WS_REQUEST_ID) (hns : c.ns.length < 64)
    (hkey : c.key.length < EDGE_STATE_KEY_MAX) :
    let r := answerChange env s w outCap p c.op c.value (c.apply st)
    ∃ st', r.world.store = some st' ∧ WriterEffect env.hubAlloc st w.hub (some c) st' r.world.hub := by
  dsimp only
  unfold answerChange
  by_cases hok : (c.apply st).2 = .ok
  · rw [if_pos hok, answer_store, answer_hub, hp.1, hp.2]
    exact ⟨_, rfl, .written s.requestId hok rfl hrid hns hkey⟩
  · rw [if_neg hok, answerErr_store, answerErr_hub]
    refine ⟨st, congrArg some (StateChange.apply_of_ne_ok hok), .quiet (fun c' hc' => ?_) rfl⟩
    exact Option.some.inj hc' ▸ hok

/-- A request that passes the role check asks for the change that its method and its key name. -/
theorem pathChange_admitted {p : StatePath}
    (hrbac : requireRbac s w outCap (edgeAuthClassify s.method s.path p.isList) = none) :
    pathChange s p = if p.isList ∨ p.key = [] then none
      else if s.method = bytes "PUT" then
        match s.bodyOff with
        | none => none
        | some off =>
          if s.contentLength ≥ 0 ∧ ((s.acc.drop off).length : ℤ) < s.contentLength then none
          else some ⟨p.ns, p.key, some (bodyBytes s)⟩
      else if s.method = bytes "DELETE" then some ⟨p.ns, p.key, none⟩
      else none := by
  have hadmitted : ¬Blocked s (edgeAuthClassify s.method s.path p.isList) := fun h => by
    have hsome := (requireRbac_isSome_iff s w outCap _).mpr h
    rw [hrbac] at hsome
    cases hsome
  rw [pathChange, if_neg hadmitted]

/-- The world after `dispatch_state`. -/
def stateWorld (env : ServeEnv η P υ) (s : EdgeHttp1Serve η) (w : ServeWorld P υ) (outCap : ℕ) :
    ServeWorld P υ :=
  match dispatchState env s w outCap with
  | some r => r.world
  | none => w

/-- **What `dispatch_state` does** with the store and the hub: the change that the request asks for,
and its announcement, or nothing. -/
theorem dispatchState_effect (hst : w.store = some st)
    (hrid : s.requestId.length < EDGE_WS_REQUEST_ID) :
    ∃ st', (stateWorld env s w outCap).store = some st'
      ∧ WriterEffect env.hubAlloc st w.hub (restChange s) st' (stateWorld env s w outCap).hub := by
  -- A request that asks for no change leaves the store and the queues.
  have hquiet : ∀ {w' : ServeWorld P υ}, restChange s = none →
      w'.store = w.store ∧ w'.hub = w.hub → ∃ st', w'.store = some st'
        ∧ WriterEffect env.hubAlloc st w.hub (restChange s) st' w'.hub := by
    rintro w' hnone ⟨hstore, hhub⟩
    refine ⟨st, hstore.trans hst, ?_⟩
    rw [hnone, hhub]
    exact .quiet (fun c hc => nomatch hc) rfl
  cases hpath : pathIsState s.path with
  | none =>
    have hnone : dispatchState env s w outCap = none := by
      rw [dispatchState, hpath]
    rw [stateWorld, hnone]
    exact hquiet (by rw [restChange, hpath]; rfl) ⟨rfl, rfl⟩
  | some p =>
    obtain ⟨hns, hklen⟩ := pathIsState_short hpath
    have hchange : restChange s = pathChange s p := by rw [restChange, hpath]; rfl
    have houtcome := dispatchState_outcome env w outCap hpath
    unfold stateWorld
    generalize dispatchState env s w outCap = out at houtcome ⊢
    cases houtcome with
    | denied hrbac =>
      have hblocked := (requireRbac_isSome_iff s w outCap _).mp (Option.isSome_of_eq_some hrbac)
      rw [pathChange, if_pos hblocked] at hchange
      exact hquiet hchange (requireRbac_world hrbac)
    | unavailable _ hnone =>
      rw [hst] at hnone
      cases hnone
    | @get st' hrbac _ hget =>
      refine hquiet ?_ (stateGetRoute_world s w outCap st' p)
      have hput : s.method ≠ bytes "PUT" := by rw [hget]; decide
      have hdelete : s.method ≠ bytes "DELETE" := by rw [hget]; decide
      rw [hchange, pathChange_admitted hrbac, if_neg hput, if_neg hdelete]
      exact ite_self _
    | badKey hrbac _ _ hkey =>
      refine hquiet ?_ ⟨answer_store .., answer_hub ..⟩
      rw [hchange, pathChange_admitted hrbac, if_pos hkey]
    | put hrbac hst' hput hkey =>
      obtain rfl := Option.some.inj (hst.symm.trans hst')
      rw [pathChange_admitted hrbac, if_neg hkey, if_pos hput] at hchange
      unfold statePutRoute
      cases hoff : s.bodyOff with
      -- Without a body the routes for GET answer, and nothing was to be put.
      | none =>
        rw [hoff] at hchange
        exact hquiet hchange ⟨rfl, rfl⟩
      | some off =>
        rw [hoff] at hchange
        dsimp only at hchange ⊢
        by_cases hbody : s.contentLength ≥ 0 ∧ ((s.acc.drop off).length : ℤ) < s.contentLength
        · rw [if_pos hbody] at hchange ⊢
          exact hquiet hchange ⟨rfl, rfl⟩
        · rw [if_neg hbody] at hchange ⊢
          rw [hchange]
          exact answerChange_effect ⟨p.ns, p.key, some (bodyBytes s)⟩ ⟨rfl, rfl⟩ hrid hns hklen
    | delete hrbac hst' hdelete hkey =>
      obtain rfl := Option.some.inj (hst.symm.trans hst')
      have hput : s.method ≠ bytes "PUT" := by rw [hdelete]; decide
      rw [pathChange_admitted hrbac, if_neg hkey, if_neg hput, if_pos hdelete] at hchange
      rw [hchange]
      exact answerChange_effect ⟨p.ns, p.key, none⟩ ⟨rfl, rfl⟩ hrid hns hklen
    | method hrbac _ _ hput hdelete =>
      refine hquiet ?_ ⟨answer_store .., answer_hub ..⟩
      rw [hchange, pathChange_admitted hrbac, if_neg hput, if_neg hdelete]
      exact ite_self _

end Rest

/-! ## Notifications -/

/-- The change that a payload asks the store for. -/
def notifyChange (json : Bytes) : Option StateChange :=
  if json.length = 0 ∨ json.length > EDGE_NOTIFY_MAX_PAYLOAD then none
  else if !edgeStateJsonOk json then none
  else
    match edgeNotifyJsonStringField json (bytes "ns") 64,
        edgeNotifyJsonStringField json (bytes "key") EDGE_STATE_KEY_MAX,
        edgeNotifyJsonStringField json (bytes "op") 16 with
    | some ns, some key, some op =>
      if !edgeStateKeyValid key then none
      else if op = bytes "delete" then some ⟨ns, key, none⟩
      else if op ≠ bytes "put" then none
      else
        match extractRawValue json (EDGE_STATE_VALUE_MAX + 1) with
        | none => none
        | some value => if value = bytes "null" then none else some ⟨ns, key, some value⟩
    | _, _, _ => none

/-- A payload that the text search reads as a change. -/
inductive ReadsChange (json : Bytes) : StateChange → Prop
  | put {ns key value} (h : ReadsPut json ns key value) : ReadsChange json ⟨ns, key, some value⟩
  | delete {ns key} (h : ReadsFields json ns key (bytes "delete")) : ReadsChange json ⟨ns, key, none⟩

theorem readsChange_of_notifyChange {json : Bytes} {c : StateChange} (h : notifyChange json = some c) :
    ReadsChange json c := by
  unfold notifyChange at h
  obtain ⟨hsize, h⟩ := Option.ite_none_left_eq_some.mp h
  obtain ⟨hjson, h⟩ := Option.ite_none_left_eq_some.mp h
  split at h
  · rename_i ns key op hns hkey hop
    obtain ⟨hvalid, h⟩ := Option.ite_none_left_eq_some.mp h
    have hfields : ReadsFields json ns key op :=
      ⟨by omega, by simpa using hjson, hns, hkey, hop, by simpa using hvalid⟩
    by_cases hdelete : op = bytes "delete"
    · rw [if_pos hdelete] at h
      obtain rfl := Option.some.inj h
      exact .delete (hdelete ▸ hfields)
    · rw [if_neg hdelete] at h
      obtain ⟨hput, h⟩ := Option.ite_none_left_eq_some.mp h
      split at h
      · exact nomatch h
      · rename_i value hvalue
        obtain ⟨hnull, h⟩ := Option.ite_none_left_eq_some.mp h
        obtain rfl := Option.some.inj h
        exact .put ⟨not_not.mp hput ▸ hfields, hvalue, hnull⟩
  · exact nomatch h

theorem notifyChange_of_reads {json : Bytes} {c : StateChange} (h : ReadsChange json c) :
    notifyChange json = some c := by
  have hop' : bytes "put" ≠ bytes "delete" := by decide
  cases h with
  | put h =>
    obtain ⟨⟨hsize, hjson, hns, hkey, hop, hvalid⟩, hvalue, hnull⟩ := h
    have hsize : ¬(json.length = 0 ∨ json.length > EDGE_NOTIFY_MAX_PAYLOAD) := by omega
    simp only [notifyChange, hsize, hjson, hns, hkey, hop, hvalid, hvalue, hnull, hop', if_false,
      Bool.not_true, Bool.false_eq_true, ne_eq, not_true_eq_false]
  | delete h =>
    obtain ⟨hsize, hjson, hns, hkey, hop, hvalid⟩ := h
    have hsize : ¬(json.length = 0 ∨ json.length > EDGE_NOTIFY_MAX_PAYLOAD) := by omega
    simp only [notifyChange, hsize, hjson, hns, hkey, hop, hvalid, if_false, if_true, Bool.not_true,
      Bool.false_eq_true]

theorem length_jsonStringField {json name x : Bytes} {outSz : ℕ} (hpos : 0 < outSz)
    (h : edgeNotifyJsonStringField json name outSz = some x) : x.length < outSz := by
  have hle : ∀ text : Bytes, (snprintf outSz text).length < outSz := fun text =>
    Nat.lt_of_le_of_lt (length_snprintf_le outSz text) (by omega)
  unfold edgeNotifyJsonStringField at h
  obtain ⟨-, h⟩ := Option.ite_none_left_eq_some.mp h
  dsimp only at h
  split at h
  · exact nomatch h
  · unfold stringAfter at h
    split at h
    · exact nomatch h
    · exact nomatch h
    · obtain ⟨-, h⟩ := Option.ite_none_left_eq_some.mp h
      rw [← Option.some.inj h]
      exact hle _

theorem length_mintedId (hub : Option EdgeWsHub) :
    (edgeWsHubMintRequestId hub none EDGE_WS_REQUEST_ID).2.length < EDGE_WS_REQUEST_ID := by
  have hle : ∀ text : Bytes, (snprintf EDGE_WS_REQUEST_ID text).length < EDGE_WS_REQUEST_ID :=
    fun text => Nat.lt_of_le_of_lt (length_snprintf_le _ text) (by decide)
  unfold edgeWsHubMintRequestId
  split
  · exact hle _
  · split
    · exact hle _
    · exact hle _

theorem length_notifyRequestId (hub : Option EdgeWsHub) (json : Bytes) :
    (notifyRequestId hub json).2.length < EDGE_WS_REQUEST_ID := by
  unfold notifyRequestId
  split
  · rename_i rid h
    exact length_jsonStringField (by decide) h
  · rcases hub with _ | h
    · decide
    · exact length_mintedId (some h)

/-- **What `edge_notify_apply` does** with the store and the hub. -/
theorem edgeNotifyApply_effect (st : StateStore) (hub : Option EdgeWsHub) (alloc : ℕ → Bool)
    (json : Bytes) :
    WriterEffect alloc st hub (notifyChange json) (edgeNotifyApply st hub alloc json).1
      (edgeNotifyApply st hub alloc json).2.1 := by
  have hsubs := notifyRequestId_subs hub json
  have hrid := length_notifyRequestId hub json
  cases hchange : notifyChange json with
  | none =>
    have hnot : ∀ c, ¬ReadsChange json c := fun c h =>
      nomatch (notifyChange_of_reads h).symm.trans hchange
    have hquiet : ∀ {st' hub'}, st' = st → hub'.map EdgeWsHub.subs = hub.map EdgeWsHub.subs →
        WriterEffect alloc st hub none st' hub' := by
      rintro st' hub' rfl hs
      exact .quiet (fun c hc => nomatch hc) hs
    rcases edgeNotifyApply_cases st hub alloc json with ⟨-, hst, hs⟩ | ⟨ns, key, value, h, -, -⟩
      | ⟨ns, key, h, -, -⟩ | ⟨ns, key, h, -, -⟩
    · exact hquiet hst hs
    · exact absurd (.put h) (hnot _)
    · exact absurd (.delete h) (hnot _)
    · exact absurd (.delete h) (hnot _)
  | some c =>
    cases readsChange_of_notifyChange hchange with
    | @put ns key value h =>
      have hns := length_jsonStringField (by decide) h.fields.ns_field
      have hkey := length_jsonStringField (by decide) h.fields.key_field
      rw [edgeNotifyApply_put st hub alloc h]
      by_cases hok : (edgeStatePut st ns key value).2 = .ok
      · rw [if_pos hok]
        exact .written (c := ⟨ns, key, some value⟩) _ hok hsubs hrid hns hkey
      · rw [if_neg hok, edgeStatePut_of_ne_ok hok]
        exact .quiet (fun c hc => Option.some.inj hc ▸ hok) hsubs
    | @delete ns key h =>
      have hns := length_jsonStringField (by decide) h.ns_field
      have hkey := length_jsonStringField (by decide) h.key_field
      rw [edgeNotifyApply_delete st hub alloc h]
      by_cases hok : (edgeStateDelete st ns key).2 = .ok
      · rw [if_pos hok]
        exact .written (c := ⟨ns, key, none⟩) _ hok hsubs hrid hns hkey
      · have hquiet : WriterEffect alloc st hub (some ⟨ns, key, none⟩) st (notifyRequestId hub json).1 :=
          .quiet (fun c hc => Option.some.inj hc ▸ hok) hsubs
        rw [if_neg hok, edgeStateDelete_of_ne_ok hok]
        split_ifs
        · exact hquiet
        · exact hquiet

/-! ## Scrapes -/

/-- The change that a scrape asks the store for. -/
def scrapeChange (env : ScrapeEnv) (cfg : EdgePqSidecarConfig) : Option StateChange :=
  (scrapeHealth env cfg).map fun r => ⟨bytes "net.core", healthKey, some r.1⟩

/-- A scrape whose request fails and whose put the store refuses. -/
def FailedRefused (env : ScrapeEnv) (cfg : EdgePqSidecarConfig) (st : StateStore) : Prop :=
  ∃ health, scrapeHealth env cfg = some (health, false)
    ∧ (edgeStatePut st (bytes "net.core") healthKey health).2 ≠ .ok

theorem broadcastHealth_eq (env : ScrapeEnv) (hub : Option EdgeWsHub) (health : Bytes) :
    ∃ hub₁ rid, hub₁.map EdgeWsHub.subs = hub.map EdgeWsHub.subs ∧ rid.length < EDGE_WS_REQUEST_ID
      ∧ broadcastHealth env hub health
        = StateChange.broadcast ⟨bytes "net.core", healthKey, some health⟩ hub₁ env.hubAlloc rid := by
  rcases hub with _ | h
  · exact ⟨none, [], rfl, by decide, rfl⟩
  · exact ⟨(edgeWsHubMintRequestId (some h) none EDGE_WS_REQUEST_ID).1, _, rfl,
      length_mintedId (some h), rfl⟩

/-- **What a scrape does** with the store and the hub, unless its request fails and its put is
refused. -/
theorem scrape_effect (env : ScrapeEnv) (cfg : EdgePqSidecarConfig) (st : StateStore)
    (hub : Option EdgeWsHub) (hnot : ¬FailedRefused env cfg st) :
    WriterEffect env.hubAlloc st hub (scrapeChange env cfg) (edgePqSidecarScrapeOnce env cfg st hub).1
      (edgePqSidecarScrapeOnce env cfg st hub).2.1 := by
  have hwritten : ∀ health, (edgeStatePut st (bytes "net.core") healthKey health).2 = .ok →
      WriterEffect env.hubAlloc st hub (some ⟨bytes "net.core", healthKey, some health⟩)
        (edgeStatePut st (bytes "net.core") healthKey health).1 (broadcastHealth env hub health) := by
    intro health hok
    obtain ⟨hub₁, rid, hsubs, hrid, heq⟩ := broadcastHealth_eq env hub health
    rw [heq]
    exact .written (c := ⟨bytes "net.core", healthKey, some health⟩) rid hok hsubs hrid
      (show (bytes "net.core").length < 64 by decide)
      (show healthKey.length < EDGE_STATE_KEY_MAX by decide)
  unfold scrapeChange edgePqSidecarScrapeOnce
  rcases hhealth : scrapeHealth env cfg with _ | ⟨health, _ | _⟩
  · exact .quiet (fun c hc => nomatch hc) rfl
  · exact hwritten health (not_not.mp fun hne => hnot ⟨health, hhealth, hne⟩)
  · dsimp only [Option.map_some]
    by_cases hok : (edgeStatePut st (bytes "net.core") healthKey health).2 = .ok
    · rw [if_neg (not_not.mpr hok)]
      exact hwritten health hok
    · rw [if_pos hok, edgeStatePut_of_ne_ok hok]
      exact .quiet (fun c hc => Option.some.inj hc ▸ hok) rfl

end Edgehost
