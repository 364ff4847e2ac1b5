import Edgehost.Core.StateRuns
import Edgehost.Host.StreamWrites

/-!
# Laws of the state stream

What the stream owes its subscribers, over all writers and all stores.

* `noPhantom_iff` — a call announces nothing that was not stored, exactly when it is not a failed
  scrape whose put is refused while a subscriber can take the message.
-/

namespace Edgehost

variable {η P υ : Type*}

/-! ## Messages fit -/

/-- **Under the default limits every message fits.** -/
theorem fits_of_bounds {c : StateChange} {rid : Bytes} (hns : c.ns.length < 64)
    (hkey : c.key.length < EDGE_STATE_KEY_MAX)
    (hvalue : (c.value.getD []).length ≤ EDGE_STATE_VALUE_DEFAULT)
    (hrid : rid.length < EDGE_WS_REQUEST_ID) :
    StateChangedFits EDGE_WS_MSG_MAX c.ns c.key c.op c.value (some rid) := by
  have hop : c.op.length ≤ 6 := by
    unfold StateChange.op
    split_ifs <;> decide
  have hnull : (bytes "null").length = 4 := by decide
  have hhead : (stateChangedHead c.ns c.key c.op).length
      = 57 + c.ns.length + c.key.length + c.op.length := by
    simp only [stateChangedHead, List.length_append]
    rw [show (bytes "\x7b\"type\":\"STATE_CHANGED\",\"ns\":\"").length = 30 by decide,
      show (bytes "\",\"key\":\"").length = 9 by decide, show (bytes "\",\"op\":\"").length = 8 by decide,
      show (bytes "\",\"value\":").length = 10 by decide]
    omega
  have htail : (stateChangedTail rid).length = 17 + rid.length := by
    simp only [stateChangedTail, List.length_append]
    rw [show (bytes ",\"request_id\":\"").length = 15 by decide,
      show (bytes "\"\x7d").length = 2 by decide]
    omega
  unfold EDGE_STATE_KEY_MAX at hkey
  unfold EDGE_STATE_VALUE_DEFAULT at hvalue
  unfold EDGE_WS_REQUEST_ID at hrid
  refine ⟨by decide, ?_, fun _ => ?_⟩
  · unfold EDGE_WS_MSG_MAX
    simp only [stateChangedText, List.length_append, hhead, htail, Option.getD_some]
    split_ifs
    · omega
    · omega
  · unfold EDGE_WS_MSG_MAX
    rw [hhead]
    omega

/-- A change whose text fits is pushed to every subscriber. -/
theorem broadcast_of_fits {c : StateChange} {rid : Bytes} {h : EdgeWsHub} {alloc : ℕ → Bool}
    (hfits : StateChangedFits EDGE_WS_MSG_MAX c.ns c.key c.op c.value (some rid)) :
    c.broadcast (some h) alloc rid = some (h.push (c.text rid) alloc).1 := by
  have hmsg := edgeWsFormatStateChanged_eq_some.mpr ⟨hfits, rfl⟩
  unfold StateChange.broadcast broadcastTo edgeWsHubBroadcastStateChanged
  rw [Option.map_some, hmsg]
  rfl

/-! ## Requests and the hub -/

/-- A request id is minted without touching a queue. -/
theorem requestRid_subs (env : ServeEnv η P υ) (hub : Option EdgeWsHub) (h1 : η) :
    (requestRid env hub h1).1.map EdgeWsHub.subs = hub.map EdgeWsHub.subs := by
  unfold requestRid
  split
  · rfl
  · rcases hub with _ | h <;> rfl

/-- Every request id fits its buffer. -/
theorem length_requestRid (env : ServeEnv η P υ) (hub : Option EdgeWsHub) (h1 : η) :
    (requestRid env hub h1).2.length < EDGE_WS_REQUEST_ID := by
  unfold requestRid
  split
  · exact Nat.lt_of_le_of_lt (length_snprintf_le _ _) (by decide)
  · exact length_mintedId hub

/-- The parser's events give out request ids only. -/
theorem onEvents_hub (env : ServeEnv η P υ) (evs : List (Http1Event × η)) (s : EdgeHttp1Serve η)
    (hub : Option EdgeWsHub) :
    (onEvents env evs s hub).2.1.map EdgeWsHub.subs = hub.map EdgeWsHub.subs := by
  induction evs generalizing s hub with
  | nil => rfl
  | cons ev evs ih =>
    obtain ⟨ev, h1⟩ := ev
    cases ev with
    | error => rfl
    | requestLine method path => exact ih _ hub
    | headersComplete =>
      exact (ih (onHeaders env s hub h1).1 (onHeaders env s hub h1).2).trans
        (requestRid_subs env hub h1)
    | bodyChunk => exact ih s hub

/-- And stays so over the parser's events. -/
theorem length_requestId_onEvents (env : ServeEnv η P υ) (evs : List (Http1Event × η))
    (s : EdgeHttp1Serve η) (hub : Option EdgeWsHub) (hs : s.requestId.length < EDGE_WS_REQUEST_ID) :
    (onEvents env evs s hub).1.requestId.length < EDGE_WS_REQUEST_ID := by
  induction evs generalizing s hub with
  | nil => exact hs
  | cons ev evs ih =>
    obtain ⟨ev, h1⟩ := ev
    cases ev with
    | error => exact hs
    | requestLine method path => exact ih _ hub hs
    | headersComplete =>
      exact ih (onHeaders env s hub h1).1 (onHeaders env s hub h1).2 (length_requestRid env hub h1)
    | bodyChunk => exact ih s hub hs

/-- The parser leaves the queues of the hub alone. -/
theorem feedParser_subs (env : ServeEnv η P υ) (s : EdgeHttp1Serve η) (hub : Option EdgeWsHub)
    (data : Bytes) :
    (feedParser env s hub data).2.1.map EdgeWsHub.subs = hub.map EdgeWsHub.subs :=
  onEvents_hub env _ { s with acc := s.acc ++ data } hub

/-! ## The body of a request -/

theorem markBodyOff_eq (s : EdgeHttp1Serve η) : ∃ off, markBodyOff s = { s with bodyOff := off } := by
  unfold markBodyOff
  split
  · exact ⟨_, rfl⟩
  · exact ⟨s.bodyOff, rfl⟩

theorem locateBody_eq (s : EdgeHttp1Serve η) : ∃ off, locateBody s = { s with bodyOff := off } := by
  unfold locateBody
  split
  · exact ⟨s.bodyOff, rfl⟩
  · exact markBodyOff_eq s

/-- Looking for the body changes nothing but where it begins. -/
theorem waitFullBody_eq (s : EdgeHttp1Serve η) :
    ∃ off, (waitFullBody s).1 = { s with bodyOff := off } := by
  unfold waitFullBody
  split_ifs
  · exact ⟨s.bodyOff, rfl⟩
  · exact locateBody_eq s

/-- Waiting for the body finds at most where it begins. -/
theorem readyRequest_eq {s s' : EdgeHttp1Serve η} (h : readyRequest s = some s') :
    ∃ off, s' = { s with bodyOff := off } := by
  unfold readyRequest at h
  split_ifs at h
  · obtain rfl := Option.some.inj h
    exact waitFullBody_eq s
  · obtain rfl := Option.some.inj h
    exact ⟨s.bodyOff, rfl⟩

/-- A request that is not whole is waited for. -/
theorem feedParsed_of_not_ready {s : EdgeHttp1Serve η} (h : readyRequest s = none) :
    ∃ off, ∀ (env : ServeEnv η P υ) (w : ServeWorld P υ) (outCap : ℕ),
      feedParsed env s w outCap = ⟨{ s with bodyOff := off }, w, 0, []⟩ := by
  obtain ⟨off, hwait⟩ := waitFullBody_eq s
  unfold readyRequest at h
  unfold feedParsed
  split_ifs at h ⊢ with hheaders hbody hfull
  · exact ⟨s.bodyOff, fun _ _ _ => rfl⟩
  · rw [show waitFullBody s = ({ s with bodyOff := off }, false) from
      Prod.ext hwait (Bool.eq_false_iff.mpr hfull)]
    exact ⟨off, fun _ _ _ => rfl⟩

/-- The login does not touch the hub. -/
theorem dispatchLabLogin_hub {env : ServeEnv η P υ} {s : EdgeHttp1Serve η} {w : ServeWorld P υ}
    {outCap : ℕ} {r : Served η P υ} (h : dispatchLabLogin env s w outCap = some r) :
    r.world.hub = w.hub := by
  unfold dispatchLabLogin at h
  split_ifs at h
  · obtain rfl := Option.some.inj h
    exact answer_hub ..
  split at h
  · obtain rfl := Option.some.inj h
    exact answer_hub ..
  dsimp only at h
  split_ifs at h
  split at h
  · obtain rfl := Option.some.inj h
    exact answer_hub ..
  split_ifs at h
  · obtain rfl := Option.some.inj h
    exact answer_hub ..
  split at h
  · obtain rfl := Option.some.inj h
    exact answer_hub ..
  · split_ifs at h
    · obtain rfl := Option.some.inj h
      rfl
    · obtain rfl := Option.some.inj h
      exact answerEx_hub ..

/-- Nor does `/auth/me`. -/
theorem dispatchAuthMe_hub {s : EdgeHttp1Serve η} {w : ServeWorld P υ} {outCap : ℕ}
    {r : Served η P υ} (h : dispatchAuthMe s w outCap = some r) : r.world.hub = w.hub := by
  unfold dispatchAuthMe at h
  split_ifs at h
  · obtain rfl := Option.some.inj h
    exact answer_hub ..
  · obtain rfl := Option.some.inj h
    exact answer_hub ..
  all_goals
    dsimp only at h
    split_ifs at h
    · obtain rfl := Option.some.inj h
      rfl
    · obtain rfl := Option.some.inj h
      exact answer_hub ..

/-- Nor does a plugin. -/
theorem dispatchV1_hub (env : ServeEnv η P υ) (s : EdgeHttp1Serve η) (w : ServeWorld P υ)
    (outCap : ℕ) (h : EdgePluginHost P) : (dispatchV1 env s w outCap h).world.hub = w.hub := by
  unfold dispatchV1
  split
  · exact answer_hub ..
  dsimp only
  split
  · rename_i hdenied
    exact (requireRbac_world hdenied).2
  by_cases halloc : env.allocPluginBody
  · rw [if_neg (by simpa using halloc)]
    exact answer_hub ..
  · rw [if_pos (by simpa using halloc)]

/-- Nor does the upgrade; the loop subscribes the connection later. -/
theorem dispatchStream_hub (env : ServeEnv η P υ) (s : EdgeHttp1Serve η) (w : ServeWorld P υ)
    (outCap : ℕ) : (dispatchStream env s w outCap).world.hub = w.hub := by
  unfold dispatchStream
  split
  · rename_i hdenied
    exact (requireRbac_world hdenied).2
  split_ifs
  · exact answer_hub ..
  · exact answer_hub ..
  split
  · exact answer_hub ..
  · rfl

/-- Nor does a file. -/
theorem serveStatic_hub (s : EdgeHttp1Serve η) (w : ServeWorld P υ) (file : Option Bytes)
    {next : Served η P υ} (h : next.world.hub = w.hub) :
    (serveStatic s w file next).world.hub = w.hub := by
  unfold serveStatic
  split
  · rfl
  · exact h

/-- Nor do the other routes for GET. -/
theorem dispatchGet_hub (env : ServeEnv η P υ) (s : EdgeHttp1Serve η) (w : ServeWorld P υ)
    (outCap : ℕ) : (dispatchGet env s w outCap).world.hub = w.hub := by
  unfold dispatchGet
  split_ifs
  · exact answer_hub ..
  · unfold dispatchHealth
    split
    · exact answer_hub ..
    · exact answer_hub ..
  split
  · unfold dispatchPackages
    split
    · rename_i hdenied
      exact (requireRbac_world hdenied).2
    · exact serveStatic_hub s w _ (answer_hub ..)
  · unfold dispatchSpa
    by_cases hspa : s.roots.spaRoot.getD [] ≠ []
    · rw [if_pos hspa]
      dsimp only
      generalize (if s.path = [] then [slash] else s.path) = url
      refine serveStatic_hub s w _ ?_
      split
      · exact answer_hub ..
      · exact serveStatic_hub s w _ (answer_hub ..)
    · rw [if_neg hspa]
      split
      · exact answer_hub ..
      · exact answer_hub ..

/-- **A request touches the hub through the state API only.** -/
theorem dispatch_hub (env : ServeEnv η P υ) (s : EdgeHttp1Serve η) (w : ServeWorld P υ)
    (outCap : ℕ) :
    (dispatch env s w outCap).world.hub = w.hub
      ∨ (dispatch env s w outCap).world = stateWorld env s w outCap := by
  unfold dispatch
  cases hlogin : dispatchLabLogin env s w outCap with
  | some r => exact .inl (dispatchLabLogin_hub hlogin)
  | none =>
    cases hme : dispatchAuthMe s w outCap with
    | some r => exact .inl (dispatchAuthMe_hub hme)
    | none =>
      dsimp only
      cases v1Host s w with
      | some h => exact .inl (dispatchV1_hub env s w outCap h)
      | none =>
        dsimp only
        unfold dispatchApi stateWorld
        split_ifs
        · exact .inl (dispatchStream_hub env s w outCap)
        · cases hstate : dispatchState env s w outCap with
          | some r => exact .inr rfl
          | none => exact .inl (dispatchGet_hub env s w outCap)

/-- The change that a feed asks the store for. -/
def feedChange (env : ServeEnv η P υ) (s : EdgeHttp1Serve η) (w : ServeWorld P υ) (data : Bytes) :
    Option StateChange :=
  (feedRequest env s w data).bind fun r => restChange r.1

theorem finishServed_world (r : Served η P υ) : (finishServed r).world = r.world := by
  unfold finishServed; split <;> rfl

/-- Without a store no request changes the hub. -/
theorem stateWorld_hub_of_no_store {env : ServeEnv η P υ} {s : EdgeHttp1Serve η}
    {w : ServeWorld P υ} {outCap : ℕ} (hst : w.store = none) :
    (stateWorld env s w outCap).hub = w.hub := by
  unfold stateWorld dispatchState
  cases pathIsState s.path with
  | none => rfl
  | some p =>
    dsimp only
    cases hrbac : requireRbac s w outCap (edgeAuthClassify s.method s.path p.isList) with
    | some denied => exact (requireRbac_world hrbac).2
    | none =>
      rw [hst]
      exact answer_hub ..

/-! ## No phantom updates -/

/-- The queues of the hub are as they were, or the change that the call asked for was accepted by the
store, is what the store now holds, and was broadcast. -/
def Announced (alloc : ℕ → Bool) (change : Option StateChange) (w w' : ServeWorld P υ) : Prop :=
  w'.hub.map EdgeWsHub.subs = w.hub.map EdgeWsHub.subs ∨
    ∃ c st hub₁ rid, change = some c ∧ w.store = some st ∧ (c.apply st).2 = .ok ∧
      w'.store = some (c.apply st).1 ∧ c.Stored (c.apply st).1 ∧
      hub₁.map EdgeWsHub.subs = w.hub.map EdgeWsHub.subs ∧ w'.hub = c.broadcast hub₁ alloc rid

/-- What a writer does to the hub, from what it does to the store. -/
theorem announced_of_effect {alloc : ℕ → Bool} {c : Option StateChange} {w w' : ServeWorld P υ}
    {st st' : StateStore} {hub : Option EdgeWsHub} (hwf : st.WF) (hst : w.store = some st)
    (hst' : w'.store = some st') (hhub : hub.map EdgeWsHub.subs = w.hub.map EdgeWsHub.subs)
    (h : WriterEffect alloc st hub c st' w'.hub) : Announced alloc c w w' := by
  generalize hw' : w'.hub = hub' at h
  cases h with
  | quiet _ hsubs => exact .inl (by rw [hw', hsubs, hhub])
  | @written c hub₁ rid hok hsubs _ _ _ =>
    exact .inr ⟨c, st, hub₁, rid, rfl, hst, hok, hst', c.stored_of_apply_ok hwf hok,
      hsubs.trans hhub, hw'⟩

/-- **A request that is complete announces its change**, and no other. -/
theorem feedParsed_announced (env : ServeEnv η P υ) {s : EdgeHttp1Serve η} {w : ServeWorld P υ}
    (w₁ : ServeWorld P υ) (hwf : ∀ st, w.store = some st → st.WF)
    (hsubs : w₁.hub.map EdgeWsHub.subs = w.hub.map EdgeWsHub.subs) (hstore : w₁.store = w.store)
    (hrid : s.requestId.length < EDGE_WS_REQUEST_ID) (outCap : ℕ) :
    Announced env.hubAlloc ((readyRequest s).bind fun s => restChange s) w
      (feedParsed env s w₁ outCap).world := by
  cases hready : readyRequest s with
  | none =>
    obtain ⟨off, hwait⟩ := feedParsed_of_not_ready (P := P) (υ := υ) hready
    rw [hwait]
    exact .inl hsubs
  | some s' =>
    rw [feedParsed_of_ready env w₁ outCap hready, finishServed_world]
    have hrid' : s'.requestId.length < EDGE_WS_REQUEST_ID := by
      obtain ⟨off, rfl⟩ := readyRequest_eq hready
      exact hrid
    rcases dispatch_hub env s' w₁ outCap with hhub | hworld
    · exact .inl (by rw [hhub, hsubs])
    rw [hworld]
    cases hst : w.store with
    | none => exact .inl (by rw [stateWorld_hub_of_no_store (hstore.trans hst), hsubs])
    | some st =>
      obtain ⟨st', hst', heffect⟩ :=
        @dispatchState_effect η P υ env s' w₁ outCap st (hstore.trans hst) hrid'
      exact announced_of_effect (hwf st hst) hst hst' hsubs heffect

/-- **A feed announces nothing that was not stored.** -/
theorem feed_announced (env : ServeEnv η P υ) {s : EdgeHttp1Serve η} {w : ServeWorld P υ}
    (hwf : ∀ st, w.store = some st → st.WF) (hrid : s.requestId.length < EDGE_WS_REQUEST_ID)
    (data : Bytes) (outCap : ℕ) :
    Announced env.hubAlloc (feedChange env s w data) w
      (edgeHttp1ServeFeed env s w data outCap).world := by
  unfold edgeHttp1ServeFeed feedChange feedRequest
  by_cases hdone : s.done
  · rw [if_pos hdone]
    exact .inl rfl
  by_cases hdata : data = []
  · rw [if_neg hdone, if_pos hdata]
    exact .inl rfl
  by_cases hroom : s.acc.length + data.length > EDGE_HTTP_ACC_MAX
  · rw [if_neg hdone, if_neg hdata, if_pos hroom, finishServed_world]
    exact .inl (congrArg (Option.map EdgeWsHub.subs) (answer_hub ..))
  rw [if_neg hdone, if_neg hdata, if_neg hroom, if_neg (by tauto)]
  dsimp only
  obtain ⟨hsubs, hlen⟩ : (feedParser env s (countInput w data).hub data).2.1.map EdgeWsHub.subs
      = w.hub.map EdgeWsHub.subs
      ∧ (feedParser env s (countInput w data).hub data).1.requestId.length < EDGE_WS_REQUEST_ID :=
    ⟨feedParser_subs ..,
      length_requestId_onEvents env _ { s with acc := s.acc ++ data } w.hub hrid⟩
  generalize feedParser env s (countInput w data).hub data = parsed at hsubs hlen ⊢
  obtain ⟨s₁, hub, bad⟩ := parsed
  dsimp only at hsubs hlen ⊢
  cases bad with
  | true =>
    rw [if_pos rfl, if_pos rfl, finishServed_world]
    exact .inl (by rw [answer_hub]; exact hsubs)
  | false =>
    rw [if_neg Bool.false_ne_true, if_neg Bool.false_ne_true]
    have h := feedParsed_announced env { countInput w data with hub } hwf hsubs rfl hlen outCap
    rwa [Option.bind_map]

/-- Some subscriber's queue changes when a message is broadcast: it gets the message, or loses its
oldest one. -/
def Touches (h : EdgeWsHub) (alloc : ℕ → Bool) : Prop :=
  ∃ i s, h.subs[i]? = some s ∧ s.active ∧ (alloc i ∨ s.q.cnt ≥ EDGE_WS_PENDING_MAX)

theorem makeRoom_q_of_full {s : EdgeWsSub} (h : s.q.cnt ≥ EDGE_WS_PENDING_MAX) :
    s.makeRoom.q = (s.q.setFront none).dropFront := by
  rw [EdgeWsSub.makeRoom, if_pos h]

/-- A push that reaches an active queue changes it. -/
theorem subPush_ne {s : EdgeWsSub} (hwf : s.WF) (hactive : s.active) (msg : Bytes) {alloc : Bool}
    (h : alloc ∨ s.q.cnt ≥ EDGE_WS_PENDING_MAX) : (subPush s msg alloc).1 ≠ s := by
  unfold subPush
  rw [if_neg (by rw [hactive]; decide)]
  dsimp only
  by_cases hfull : s.q.cnt ≥ EDGE_WS_PENDING_MAX
  · -- Dropping the oldest message moves the head, and a push does not move it back.
    have hhead : (s.q.head + 1) % s.q.cap ≠ s.q.head := by
      have hlt := hwf.ring.head_lt
      rw [hwf.cap] at hlt ⊢
      unfold EDGE_WS_PENDING_MAX at hlt ⊢
      omega
    intro heq
    refine hhead ?_
    have hq := congrArg (fun s : EdgeWsSub => s.q.head) heq
    split_ifs at hq
    · rw [makeRoom_q_of_full hfull] at hq
      simpa using hq
    · dsimp only at hq
      rw [makeRoom_q_of_full hfull] at hq
      simpa using hq
  · have halloc : alloc = true := h.resolve_right hfull
    intro heq
    have hq := congrArg (fun s : EdgeWsSub => s.q.cnt) heq
    rw [if_neg (by rw [halloc]; decide)] at hq
    dsimp only at hq
    rw [RingBuf.cnt_pushBack, EdgeWsSub.makeRoom, if_neg hfull] at hq
    omega

/-- Otherwise nothing happens. -/
theorem subPush_eq {s : EdgeWsSub} (msg : Bytes) {alloc : Bool}
    (h : ¬(s.active ∧ (alloc ∨ s.q.cnt ≥ EDGE_WS_PENDING_MAX))) : (subPush s msg alloc).1 = s := by
  unfold subPush
  by_cases hactive : s.active
  · have hnot : ¬(alloc ∨ s.q.cnt ≥ EDGE_WS_PENDING_MAX) := fun hor => h ⟨hactive, hor⟩
    push Not at hnot
    rw [if_neg (by rw [hactive]; decide)]
    dsimp only
    rw [if_pos (by simpa using hnot.1), EdgeWsSub.makeRoom, if_neg (Nat.not_le.mpr hnot.2)]
  · rw [if_pos (by simpa using hactive)]

/-- **A message that fits changes the queues exactly when there is a subscriber to take it.** -/
theorem push_subs_eq_iff {h : EdgeWsHub} (hwf : h.WF) (msg : Bytes) (alloc : ℕ → Bool) :
    (h.push msg alloc).1.subs = h.subs ↔ ¬Touches h alloc := by
  constructor
  · rintro heq ⟨i, s, hs, hactive, htakes⟩
    have hpush := EdgeWsHub.getElem?_push h msg alloc i
    rw [heq, hs, Option.map_some] at hpush
    exact subPush_ne (hwf s (List.mem_of_getElem? hs)) hactive msg htakes
      (Option.some.inj hpush).symm
  · intro hnot
    refine List.ext_getElem? fun i => ?_
    rw [EdgeWsHub.getElem?_push]
    rcases hs : h.subs[i]? with _ | s
    · rfl
    · rw [Option.map_some, subPush_eq msg fun htakes => hnot ⟨i, s, hs, htakes⟩]

/-! ## Calls of the writers -/

/-- A call of one of the writers, with everything that the system decides. A connection's request id
fits its field. -/
inductive WriterCall (η P υ : Type*)
  | feed (env : ServeEnv η P υ) (s : EdgeHttp1Serve η) (hrid : s.requestId.length < EDGE_WS_REQUEST_ID)
      (data : Bytes) (outCap : ℕ)
  | notify (alloc : ℕ → Bool) (json : Bytes)
  | scrape (env : ScrapeEnv) (cfg : EdgePqSidecarConfig)

namespace WriterCall

/-- The process after the call; without a store the last two do nothing. -/
def run (w : ServeWorld P υ) : WriterCall η P υ → ServeWorld P υ
  | feed env s _ data outCap => (edgeHttp1ServeFeed env s w data outCap).world
  | notify alloc json =>
    match w.store with
    | none => w
    | some st =>
      let r := edgeNotifyApply st w.hub alloc json
      { w with store := some r.1, hub := r.2.1 }
  | scrape env cfg =>
    match w.store with
    | none => w
    | some st =>
      let r := edgePqSidecarScrapeOnce env cfg st w.hub
      { w with store := some r.1, hub := r.2.1 }

/-- The change that the call asks the store for. -/
def change (w : ServeWorld P υ) : WriterCall η P υ → Option StateChange
  | feed env s _ data _ => feedChange env s w data
  | notify _ json => notifyChange json
  | scrape env cfg => scrapeChange env cfg

/-- Which allocations of the hub succeed. -/
def alloc : WriterCall η P υ → ℕ → Bool
  | feed env _ _ _ _ => env.hubAlloc
  | notify alloc _ => alloc
  | scrape env _ => env.hubAlloc

/-- The call announces nothing that was not stored. -/
def NoPhantom (w : ServeWorld P υ) (call : WriterCall η P υ) : Prop :=
  Announced call.alloc (call.change w) w (call.run w)

/-- The call is a scrape whose request fails and whose put the store refuses, while some subscriber can
take the message. -/
def PhantomScrape (w : ServeWorld P υ) : WriterCall η P υ → Prop
  | scrape env cfg =>
    ∃ st h, w.store = some st ∧ w.hub = some h ∧ FailedRefused env cfg st ∧ Touches h env.hubAlloc
  | _ => False

end WriterCall

/-- A payload announces what it stores. -/
theorem notify_announced (alloc : ℕ → Bool) (json : Bytes) {w : ServeWorld P υ}
    (hwf : ∀ st, w.store = some st → st.WF) :
    (WriterCall.notify (η := η) alloc json).NoPhantom w := by
  unfold WriterCall.NoPhantom WriterCall.run WriterCall.change
  cases hst : w.store with
  | none => exact .inl rfl
  | some st =>
    exact announced_of_effect (hwf st hst) hst rfl rfl (edgeNotifyApply_effect st w.hub alloc json)

/-- A scrape announces the health that it stores. -/
theorem scrape_announced {env : ScrapeEnv} {cfg : EdgePqSidecarConfig} {w : ServeWorld P υ}
    {st : StateStore} (hwf : st.WF) (hst : w.store = some st) (hnot : ¬FailedRefused env cfg st) :
    (WriterCall.scrape (η := η) env cfg).NoPhantom w := by
  unfold WriterCall.NoPhantom WriterCall.run WriterCall.change
  rw [hst]
  exact announced_of_effect hwf hst rfl rfl (scrape_effect env cfg st w.hub hnot)

/-- What a scrape does whose request fails and whose put is refused: it broadcasts all the same. -/
theorem scrape_failedRefused {env : ScrapeEnv} {cfg : EdgePqSidecarConfig} {st : StateStore}
    {health : Bytes} (hhealth : scrapeHealth env cfg = some (health, false))
    (hrefused : (edgeStatePut st (bytes "net.core") healthKey health).2 ≠ .ok)
    (hub : Option EdgeWsHub) :
    edgePqSidecarScrapeOnce env cfg st hub = (st, broadcastHealth env hub health, -1) := by
  unfold edgePqSidecarScrapeOnce
  rw [hhealth]
  dsimp only
  rw [edgeStatePut_of_ne_ok hrefused]

theorem scrapeChange_of_health {env : ScrapeEnv} {cfg : EdgePqSidecarConfig} {health : Bytes}
    {ok : Bool} (h : scrapeHealth env cfg = some (health, ok)) :
    scrapeChange env cfg = some ⟨bytes "net.core", healthKey, some health⟩ := by
  rw [scrapeChange, h]
  rfl

/-- The text of a failed scrape is short. -/
theorem length_scrapeHealth_down {env : ScrapeEnv} {cfg : EdgePqSidecarConfig} {health : Bytes}
    (h : scrapeHealth env cfg = some (health, false)) : health.length ≤ 511 := by
  unfold scrapeHealth at h
  obtain ⟨-, h⟩ := Option.ite_none_left_eq_some.mp h
  dsimp only at h
  split_ifs at h
  · obtain ⟨rfl, -⟩ := Prod.mk.inj (Option.some.inj h)
    exact length_snprintf_le 512 _
  · exact nomatch (Prod.mk.inj (Option.some.inj h)).2

/-- The health of a failed scrape changes the queues exactly when there is a subscriber to take it. -/
theorem broadcastHealth_subs {env : ScrapeEnv} {h : EdgeWsHub} (hwf : h.WF) {health : Bytes}
    (hlen : health.length ≤ 511) :
    (broadcastHealth env (some h) health).map EdgeWsHub.subs = some h.subs
      ↔ ¬Touches h env.hubAlloc := by
  obtain ⟨hub₁, rid, hsubs, hrid, heq⟩ := broadcastHealth_eq env (some h) health
  cases hub₁ with
  | none => exact nomatch hsubs
  | some h₁ =>
    have hsame : h₁.subs = h.subs := Option.some.inj hsubs
    have hfits := fits_of_bounds (c := ⟨bytes "net.core", healthKey, some health⟩)
      (show (bytes "net.core").length < 64 by decide)
      (show healthKey.length < EDGE_STATE_KEY_MAX by decide) (le_trans hlen (by decide)) hrid
    have hwf₁ : h₁.WF := by
      unfold EdgeWsHub.WF
      rwa [hsame]
    have hiff := push_subs_eq_iff hwf₁
      (StateChange.text ⟨bytes "net.core", healthKey, some health⟩ rid) env.hubAlloc
    unfold Touches at hiff ⊢
    rw [hsame] at hiff
    rw [heq, broadcast_of_fits hfits, Option.map_some, Option.some_inj]
    exact hiff

/-- A failed scrape whose put is refused must leave the queues alone. -/
theorem failedScrape_noPhantom_iff {env : ScrapeEnv} {cfg : EdgePqSidecarConfig}
    {w : ServeWorld P υ} {st : StateStore} {health : Bytes} (hst : w.store = some st)
    (hhealth : scrapeHealth env cfg = some (health, false))
    (hrefused : (edgeStatePut st (bytes "net.core") healthKey health).2 ≠ .ok) :
    (WriterCall.scrape (η := η) env cfg).NoPhantom w
      ↔ (broadcastHealth env w.hub health).map EdgeWsHub.subs = w.hub.map EdgeWsHub.subs := by
  have hrun : (WriterCall.scrape (η := η) env cfg).run w
      = { w with store := some st, hub := broadcastHealth env w.hub health } := by
    unfold WriterCall.run
    rw [hst]
    dsimp only
    rw [scrape_failedRefused hhealth hrefused]
  unfold WriterCall.NoPhantom Announced
  rw [hrun]
  refine or_iff_left ?_
  rintro ⟨c, st', hub₁, rid, hc, hst', hok, -⟩
  obtain rfl := Option.some.inj (hst.symm.trans hst')
  obtain rfl := Option.some.inj ((scrapeChange_of_health hhealth).symm.trans hc)
  exact hrefused hok

/-- **A call announces nothing that was not stored, exactly when it is not a failed scrape whose put is
refused while a subscriber can take the message.** -/
theorem noPhantom_iff (call : WriterCall η P υ) (w : ServeWorld P υ)
    (hwf : ∀ st, w.store = some st → st.WF) (hhub : ∀ h, w.hub = some h → h.WF) :
    call.NoPhantom w ↔ ¬call.PhantomScrape w := by
  cases call with
  | feed env s hrid data outCap =>
    exact iff_of_true (feed_announced env hwf hrid data outCap) id
  | notify alloc json => exact iff_of_true (notify_announced alloc json hwf) id
  | scrape env cfg =>
    cases hst : w.store with
    | none =>
      refine iff_of_true ?_ fun ⟨st, h, hst', _⟩ => nomatch hst.symm.trans hst'
      unfold WriterCall.NoPhantom WriterCall.run
      rw [hst]
      exact .inl rfl
    | some st =>
      by_cases hfailed : FailedRefused env cfg st
      · obtain ⟨health, hhealth, hrefused⟩ := hfailed
        rw [failedScrape_noPhantom_iff hst hhealth hrefused]
        cases hh : w.hub with
        | none => exact iff_of_true rfl fun ⟨st, h, _, hh', _⟩ => nomatch hh.symm.trans hh'
        | some h =>
          rw [Option.map_some, broadcastHealth_subs (hhub h hh) (length_scrapeHealth_down hhealth)]
          refine not_congr ⟨fun ht => ⟨st, h, hst, hh, ⟨health, hhealth, hrefused⟩, ht⟩, ?_⟩
          rintro ⟨st', h', -, hh', -, ht⟩
          obtain rfl := Option.some.inj (hh.symm.trans hh')
          exact ht
      · refine iff_of_true (scrape_announced (hwf st hst) hst hfailed) ?_
        rintro ⟨st', h, hst', -, hf, -⟩
        obtain rfl := Option.some.inj (hst.symm.trans hst')
        exact hfailed hf

/-- A scrape of a proxy that cannot be reached. -/
def downScrape : ScrapeEnv where
  net := { answering [] with connectHost := fun _ _ => false }
  allocBody := true
  allocText := true
  clock := epoch
  hubAlloc _ := true

def proxyCfg : EdgePqSidecarConfig := { edgePqSidecarConfigDefaults with enabled := true }

/-- A process with a store and one subscriber. -/
def watchedWorld (st : StateStore) : ServeWorld Unit Unit where
  store := some st
  hub := some oneSub
  plugins := none
  mem := ()
  metrics := none

/-- A store with room for one health. -/
def healthStore : StateStore := edgeStateCreateWithConfig { maxKeysPerNs := 1, maxValueBytes := 64 }

theorem downScrape_health :
    scrapeHealth downScrape proxyCfg = some (healthDown epoch, false) := by
  rfl

theorem noPhantom_health :
    (WriterCall.scrape downScrape proxyCfg : WriterCall Unit Unit Unit).NoPhantom
      (watchedWorld healthStore) := by
  refine (noPhantom_iff _ (watchedWorld healthStore) ?_ ?_).mpr ?_
  · rintro st hst
    obtain rfl := Option.some.inj hst
    exact (edgeStateCreateWithConfig_fresh _).1
  · rintro h hh
    obtain rfl := Option.some.inj hh
    exact oneSub_wf
  · rintro ⟨st, h, hst, -, ⟨health, hhealth, hne⟩, -⟩
    obtain rfl := Option.some.inj hst
    obtain ⟨rfl, -⟩ := Prod.mk.inj (Option.some.inj (downScrape_health.symm.trans hhealth))
    exact hne (by decide +kernel)

/-- With `net.core` disabled the same scrape announces what was not stored. -/
theorem not_noPhantom_disabled :
    ¬(WriterCall.scrape downScrape proxyCfg : WriterCall Unit Unit Unit).NoPhantom
      (watchedWorld (edgeStateNsSetEnabled healthStore (bytes "net.core") false true).1) := by
  rw [failedScrape_noPhantom_iff rfl downScrape_health (by decide +kernel)]
  intro h
  refine (broadcastHealth_subs oneSub_wf (length_scrapeHealth_down downScrape_health)).mp h ?_
  exact ⟨0, _, rfl, rfl, .inl rfl⟩

end Edgehost
