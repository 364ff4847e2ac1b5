import Edgehost.Host.LoopInvariants
import Edgehost.Host.Startup

/-!
# The slots of the stream

The loop keeps its connections and the hub its subscribers apart, each with slots of its own. A slot is
subscribed exactly while its connection has been promoted to the stream, so a broadcast reaches the
clients of the stream and nobody else.

* `agree_loopInv`       — the loop keeps the hub and the slots in agreement.
* `started_subscribed`  — they agree in every state of every run from the start of the loop over plain TCP.
-/

namespace Edgehost

variable {η P υ ω : Type*}

/-! ## Subscriptions -/

/-- Which slots are subscribed. -/
def subscribed (hub : Option EdgeWsHub) : ℕ → Bool := edgeWsHubIsSubscribed hub

/-- As the table of the hub has it. -/
theorem subscribed_some (h : EdgeWsHub) (j : ℕ) :
    subscribed (some h) j = (h.subs[j]?).any EdgeWsSub.active := by
  unfold subscribed edgeWsHubIsSubscribed
  rw [Option.bind_some]
  cases h.subs[j]? <;> rfl

/-- The flags of the slots are what counts. -/
theorem subscribed_congr {h h' : EdgeWsHub}
    (hflags : h'.subs.map EdgeWsSub.active = h.subs.map EdgeWsSub.active) :
    subscribed (some h') = subscribed (some h) := by
  funext j
  have hj := congrArg (fun l : List Bool => l[j]?) hflags
  simp only [List.getElem?_map] at hj
  rw [subscribed_some, subscribed_some]
  cases hs : h.subs[j]? with
  | none =>
    rw [hs, Option.map_none, Option.map_eq_none_iff] at hj
    rw [hj]
  | some s =>
    rw [hs, Option.map_some, Option.map_eq_some_iff] at hj
    obtain ⟨s', hs', heq⟩ := hj
    rw [hs', Option.any_some, Option.any_some, heq]

/-- It depends on the table only. -/
theorem subscribed_of_subs {hub hub' : Option EdgeWsHub}
    (h : hub'.map EdgeWsHub.subs = hub.map EdgeWsHub.subs) : subscribed hub' = subscribed hub := by
  cases hub with
  | none =>
    rw [Option.map_none, Option.map_eq_none_iff] at h
    rw [h]
  | some h₀ =>
    rw [Option.map_some, Option.map_eq_some_iff] at h
    obtain ⟨h₁, rfl, hsubs⟩ := h
    exact subscribed_congr (by rw [hsubs])

/-- A slot that is written. -/
theorem subscribed_set (h : EdgeWsHub) {i : ℕ} (hi : i < h.subs.length) (s : EdgeWsSub) :
    subscribed (some { h with subs := h.subs.set i s })
      = Function.update (subscribed (some h)) i s.active := by
  funext j
  rw [subscribed_some]
  dsimp only
  by_cases hj : j = i
  · subst hj
    rw [Function.update_self, List.getElem?_set_self hi, Option.any_some]
  · rw [Function.update_of_ne hj, List.getElem?_set_ne (fun h => hj h.symm), subscribed_some]

/-- A message that is queued, or dropped, does not end a subscription. -/
theorem active_subPush (s : EdgeWsSub) (msg : Bytes) (alloc : Bool) :
    (subPush s msg alloc).1.active = s.active := by
  have hroom : s.makeRoom.active = s.active := by
    unfold EdgeWsSub.makeRoom
    split_ifs <;> rfl
  unfold subPush
  dsimp only
  split_ifs
  · rfl
  · exact hroom
  · exact hroom

/-- A broadcast subscribes nobody. -/
theorem subscribed_broadcastTo (hub : Option EdgeWsHub) (alloc : ℕ → Bool) (ns key op : Bytes)
    (value : Option Bytes) (rid : Bytes) :
    subscribed (broadcastTo hub alloc ns key op value rid) = subscribed hub := by
  cases hub with
  | none => rfl
  | some h =>
    unfold broadcastTo edgeWsHubBroadcastStateChanged
    rw [Option.map_some]
    cases edgeWsFormatStateChanged EDGE_WS_MSG_MAX ns key op value (some rid) with
    | none => rfl
    | some msg =>
      refine subscribed_congr ?_
      unfold EdgeWsHub.push
      refine List.ext_getElem? fun j => ?_
      rw [List.getElem?_map, List.getElem?_mapIdx, Option.map_map, List.getElem?_map]
      exact congrArg (Option.map · h.subs[j]?) (funext fun s => active_subPush s msg (alloc j))

/-- A slot that is not subscribed is told nothing. -/
theorem broadcastTo_outside {hub : Option EdgeWsHub} {j : ℕ} (hj : subscribed hub j = false)
    (alloc : ℕ → Bool) (ns key op : Bytes) (value : Option Bytes) (rid : Bytes) :
    (broadcastTo hub alloc ns key op value rid).bind (·.subs[j]?) = hub.bind (·.subs[j]?) := by
  cases hub with
  | none => rfl
  | some h =>
    unfold broadcastTo edgeWsHubBroadcastStateChanged
    rw [Option.map_some, Option.bind_some, Option.bind_some]
    cases edgeWsFormatStateChanged EDGE_WS_MSG_MAX ns key op value (some rid) with
    | none => rfl
    | some msg =>
      unfold EdgeWsHub.push
      dsimp only
      rw [List.getElem?_mapIdx]
      cases hs : h.subs[j]? with
      | none => rfl
      | some s =>
        rw [subscribed_some, hs, Option.any_some] at hj
        rw [Option.map_some, subPush_eq msg fun htakes => by simp [hj] at htakes]

/-- Nor does taking one. -/
theorem subscribed_takePending (io : LoopIo P υ) (slot : ℕ) :
    subscribed (takePending io slot).1.world.hub = subscribed io.world.hub := by
  unfold takePending
  cases hhub : io.world.hub with
  | none => rw [hhub]
  | some h =>
    dsimp only
    unfold edgeWsHubTakePending
    split_ifs
    · rfl
    cases hs : h.subs[(slot : ℤ).toNat]? with
    | none => rfl
    | some s =>
      dsimp only
      split_ifs
      · rfl
      · rfl
      · obtain ⟨hi, hget⟩ := List.getElem?_eq_some_iff.mp hs
        dsimp only
        rw [subscribed_set h hi]
        refine Function.update_eq_self_iff.mpr ?_
        rw [subscribed_some, hs, Option.any_some]

/-- A subscription that is granted is for this slot. -/
theorem subscribed_subscribe {h : EdgeWsHub} {slot : ℕ} (hrc : (edgeWsHubSubscribe h slot).2 = 0) :
    subscribed (some (edgeWsHubSubscribe h slot).1) = Function.update (subscribed (some h)) slot true := by
  unfold edgeWsHubSubscribe at hrc ⊢
  rw [if_neg (by omega)] at hrc ⊢
  rw [Int.toNat_natCast] at hrc ⊢
  cases hs : h.subs[slot]? with
  | none =>
    rw [hs] at hrc
    exact absurd hrc (show ¬(-1 : ℤ) = 0 by decide)
  | some s => exact subscribed_set h (List.getElem?_eq_some_iff.mp hs).1 { s with active := true }

/-- And so is its end. -/
theorem subscribed_unsubscribe (hub : Option EdgeWsHub) (slot : ℕ) :
    subscribed (hub.map fun h => edgeWsHubUnsubscribe h slot)
      = Function.update (subscribed hub) slot false := by
  cases hub with
  | none => exact (Function.update_eq_self_iff.mpr rfl).symm
  | some h =>
    rw [Option.map_some]
    unfold edgeWsHubUnsubscribe
    rw [if_neg (by omega), Int.toNat_natCast]
    cases hs : h.subs[slot]? with
    | none =>
      refine (Function.update_eq_self_iff.mpr ?_).symm
      rw [subscribed_some, hs, Option.any_none]
    | some s => exact subscribed_set h (List.getElem?_eq_some_iff.mp hs).1 EdgeWsSub.idle

/-! ## A request -/

/-- A change is announced; nobody joins or leaves. -/
theorem subscribed_answerChange (env : ServeEnv η P υ) (s : EdgeHttp1Serve η) (w : ServeWorld P υ)
    (outCap : ℕ) (p : StatePath) (op : Bytes) (value : Option Bytes) (r : StateStore × EdgeStateErr) :
    subscribed (answerChange env s w outCap p op value r).world.hub = subscribed w.hub := by
  unfold answerChange
  dsimp only
  split_ifs
  · rw [answer_hub]
    exact subscribed_broadcastTo ..
  · rw [answerErr, answer_hub]

/-- The routes of the state leave the subscriptions alone. -/
theorem subscribed_stateWorld (env : ServeEnv η P υ) (s : EdgeHttp1Serve η) (w : ServeWorld P υ)
    (outCap : ℕ) : subscribed (stateWorld env s w outCap).hub = subscribed w.hub := by
  unfold stateWorld
  cases hpath : pathIsState s.path with
  | none =>
    rw [dispatchState, hpath]
  | some p =>
    have houtcome := dispatchState_outcome env w outCap hpath
    generalize dispatchState env s w outCap = r at houtcome
    cases houtcome with
    | denied hrbac => exact congrArg subscribed (requireRbac_world hrbac).2
    | unavailable => exact congrArg subscribed (answer_hub ..)
    | get =>
      refine congrArg subscribed ?_
      show (stateGetRoute s w outCap _ p).world.hub = w.hub
      unfold stateGetRoute answerErr
      by_cases hlist : p.isList
      · rw [if_pos hlist]
        split <;> exact answer_hub ..
      · rw [if_neg hlist]
        split <;> exact answer_hub ..
    | badKey => exact congrArg subscribed (answer_hub ..)
    | put =>
      unfold statePutRoute
      cases s.bodyOff with
      | none => rfl
      | some off =>
        dsimp only
        split_ifs
        · rfl
        · exact subscribed_answerChange ..
    | delete => exact subscribed_answerChange ..
    | method => exact congrArg subscribed (answer_hub ..)

/-- **A request subscribes nobody**: the connection does, once its answer is out. -/
theorem subscribed_feed (env : ServeEnv η P υ) (s : EdgeHttp1Serve η) (w : ServeWorld P υ) (data : Bytes)
    (outCap : ℕ) :
    subscribed (edgeHttp1ServeFeed env s w data outCap).world.hub = subscribed w.hub := by
  unfold edgeHttp1ServeFeed
  dsimp only
  have hparser : subscribed (feedParser env s (countInput w data).hub data).2.1 = subscribed w.hub :=
    subscribed_of_subs (feedParser_subs ..)
  split_ifs
  · rfl
  · rfl
  · rw [finishServed_world, answer_hub]
    rfl
  · rw [finishServed_world, answer_hub]
    exact hparser
  · generalize (feedParser env s (countInput w data).hub data) = parsed at hparser
    rw [← hparser]
    cases hready : readyRequest parsed.1 with
    | none =>
      obtain ⟨off, hwait⟩ := feedParsed_of_not_ready (P := P) (υ := υ) hready
      rw [hwait]
    | some s' =>
      rw [feedParsed_of_ready env _ outCap hready, finishServed_world]
      rcases dispatch_hub env s' { countInput w data with hub := parsed.2.1 } outCap with hhub | hworld
      · rw [hhub]
      · rw [hworld]
        exact subscribed_stateWorld ..

/-- A scrape tells the clients of the stream, and makes nobody one. -/
theorem subscribed_scrapeOnce (env : ScrapeEnv) (cfg : EdgePqSidecarConfig) (st : StateStore)
    (hub : Option EdgeWsHub) :
    subscribed (edgePqSidecarScrapeOnce env cfg st hub).2.1 = subscribed hub := by
  have hhealth : ∀ health, subscribed (broadcastHealth env hub health) = subscribed hub := by
    intro health
    unfold broadcastHealth
    cases hub with
    | none => rfl
    | some h => exact (subscribed_broadcastTo ..).trans rfl
  unfold edgePqSidecarScrapeOnce
  split
  · rfl
  · exact hhealth _
  · dsimp only
    split_ifs
    · rfl
    · exact hhealth _

/-! ## The slots -/

/-- Which slots hold a connection of the stream. -/
def streamsAt (conns : List (Conn η ω)) (j : ℕ) : Bool := (conns[j]?).any fun c => c.state.streams

/-- **The hub and the slots agree**: what is subscribed is what streams. -/
structure Agree (w : ServeWorld P υ) (conns : List (Conn η ω)) : Prop where
  slotted : Slotted conns
  flags : subscribed w.hub = streamsAt conns

/-- Another connection in one slot. -/
theorem streamsAt_set {conns : List (Conn η ω)} {i : ℕ} (hi : i < conns.length) (c : Conn η ω) :
    streamsAt (conns.set i c) = Function.update (streamsAt conns) i c.state.streams := by
  funext j
  unfold streamsAt
  by_cases hj : j = i
  · subst hj
    rw [Function.update_self, List.getElem?_set_self hi, Option.any_some]
  · rw [Function.update_of_ne hj, List.getElem?_set_ne (fun h => hj h.symm)]

/-- At the start nobody streams and nobody is subscribed. -/
theorem agree_loopStart (n : ℕ) {world : ServeWorld P υ} (hnone : ∀ j, subscribed world.hub j = false) :
    Agree world (loopStart (η := η) (ω := ω) n world).conns := by
  refine ⟨loopStart_slotted n world, funext fun j => (hnone j).trans ?_⟩
  unfold streamsAt
  cases hc : (loopStart (η := η) (ω := ω) n world).conns[j]? with
  | none => rfl
  | some c =>
    rw [loopStart_idle hc]
    rfl

/-- **The loop keeps the hub and the slots in agreement.** -/
theorem agree_loopInv (o : LoopOpts η) :
    LoopInv o (AnyFeed η P υ) True (Agree (P := P) (υ := υ) (η := η) (ω := ω)) where
  slotted h := h.slotted
  conn {w conns c c'} h hc hslot hstate _ := by
    refine ⟨h.slotted.set hslot, ?_⟩
    rw [h.flags, streamsAt_set (List.getElem?_eq_some_iff.mp hc).1, hstate]
    refine (Function.update_eq_self_iff.mpr ?_).symm
    rw [streamsAt, hc, Option.any_some]
  count _ h := ⟨h.slotted, h.flags⟩
  take {io _} slot h := ⟨h.slotted, (subscribed_takePending io slot).trans h.flags⟩
  close {w conns c c'} h hc hslot hfree _ := by
    refine ⟨h.slotted.set hslot, ?_⟩
    rw [streamsAt_set (List.getElem?_eq_some_iff.mp hc).1, hfree, ← h.flags]
    exact subscribed_unsubscribe w.hub c.slot
  promote {w conns c c' hub} h hc hslot hstate _ hhub hrc := by
    refine ⟨h.slotted.set hslot, ?_⟩
    rw [streamsAt_set (List.getElem?_eq_some_iff.mp hc).1, hstate, ← h.flags, hhub]
    exact subscribed_subscribe hrc
  feed {w _} env s data outCap h _ := ⟨h.slotted, (subscribed_feed env s w data outCap).trans h.flags⟩
  scrape {w _ st} env cfg h _ _ := ⟨h.slotted, (subscribed_scrapeOnce env cfg st w.hub).trans h.flags⟩

/-! ## From the start -/

theorem subscribed_edgeWsHubCreate (n j : ℕ) : subscribed (some (edgeWsHubCreate n)) j = false := by
  rw [subscribed_some, edgeWsHubCreate, List.getElem?_replicate]
  split_ifs <;> rfl

/-- **Who streams is subscribed, and nobody else is told anything**: from the start of the loop over plain
TCP, whatever the kernel completes and in which order, and whatever fails on the way, a slot is subscribed
exactly while its connection has been promoted to the stream, and a broadcast leaves every other slot
alone. -/
theorem started_subscribed {env : RingEnv} {st : Started} {h1 : η} {o : LoopOpts η}
    {srv : Server η BundledPlugin OpenaiData ω} (hstart : edgeIouringStart env st h1 = .plain o srv)
    (evs : List (LoopEvent η BundledPlugin OpenaiData ω)) :
    Always (loopStep o) (fun srv => ∀ j, subscribed srv.io.world.hub j = streamsAt srv.conns j ∧
      (streamsAt srv.conns j = false → ∀ alloc ns key op value rid,
        (broadcastTo srv.io.world.hub alloc ns key op value rid).bind (·.subs[j]?)
          = srv.io.world.hub.bind (·.subs[j]?))) srv evs := by
  obtain ⟨rfl, rfl⟩ := edgeIouringStart_plain hstart
  have hstart : Agree (ringWorld env st) (loopStart (η := η) (ω := ω) 64 (ringWorld env st)).conns :=
    agree_loopStart 64 (subscribed_edgeWsHubCreate 64)
  refine ((agree_loopInv (ringOpts st h1)).always hstart evs).mono fun _ h j => ?_
  refine ⟨congrFun h.flags j, fun hout alloc ns key op value rid => ?_⟩
  exact broadcastTo_outside ((congrFun h.flags j).trans hout) alloc ns key op value rid

/-- The ring of a lab process. -/
def labRingEnv : RingEnv := ⟨epoch, true, fun _ => true, true, true⟩

/-- The bundled plugins, and a client that asks for the stream. -/
def labLoopEnv : LoopEnv Unit BundledPlugin OpenaiData Bytes where
  serve :=
    { parser := handshakeParser, vtbl := bundledVtbl 0 true, net := answering [], files := fun _ => none
      clock := epoch, hubAlloc := fun _ => true, allocPluginBody := true, allocUpstream := true
      allocStatic := true, overrunPrincipal := edgePrincipalClear }
  ws := framing
  nonblock := true
  allocSendBuf := true
  allocServe := true
  scrape := downScrape

/-- A client joins the stream, and a turn brings nothing. -/
def labRun : List (LoopEvent Unit BundledPlugin OpenaiData Bytes) :=
  [.accepted labLoopEnv (.ok 5) 9, .received labLoopEnv 0 0 (.ok handshake) 9,
    .sent labLoopEnv 0 0 (.ok 129) 9, .timeout labLoopEnv 9]

/-- The lab has no certificate, so its loop is the plain one. -/
theorem labRing_start {st : Started} (htls : edgeTlsConfigEnabled st.cfg.tlsCert st.cfg.tlsKey = false) :
    edgeIouringStart (ω := Bytes) labRingEnv st ()
      = .plain (ringOpts st ()) (loopStart 64 (ringWorld labRingEnv st)) := by
  unfold edgeIouringStart
  rw [htls, if_neg (by simp), if_neg (by simp [labRingEnv]), if_neg Bool.false_ne_true]

theorem started_subscribed_lab : ∃ (st : Started) (srv : Server Unit BundledPlugin OpenaiData Bytes),
    mainStart labStartEnv labArgs = some st ∧
    edgeIouringStart labRingEnv st () = .plain (ringOpts st ()) srv ∧
    Always (loopStep (ringOpts st ())) (fun srv => ∀ j,
      subscribed srv.io.world.hub j = streamsAt srv.conns j ∧
      (streamsAt srv.conns j = false → ∀ alloc ns key op value rid,
        (broadcastTo srv.io.world.hub alloc ns key op value rid).bind (·.subs[j]?)
          = srv.io.world.hub.bind (·.subs[j]?))) srv labRun := by
  obtain ⟨st, hst, htls⟩ := Option.map_eq_some_iff.mp labStart_tls
  have hstart := labRing_start htls
  exact ⟨st, _, hst, hstart, started_subscribed hstart labRun⟩

end Edgehost
