import Edgehost.Host.StoreRuns

/-!
# Who writes to the store

Where authentication is enforced, the store of a process that runs over plain TCP changes in two kinds of
turns only: one that scrapes, and one that serves a request whose principal may write.

* `Writer`                 — a request that may change the store.
* `writer_of_feed`         — no other request does.
* `authed_loopInv`         — every connection has the auth context of the process.
* `writers_of_storeChange` — in every turn of every run.
-/

namespace Edgehost

variable {η P υ ω : Type*}

/-! ## Requests -/

/-- A request that may change the store: a PUT or a DELETE on the state API, or one for a plugin, by a
principal that has the right to it where that is asked for. -/
inductive Writer (s : EdgeHttp1Serve η) : Prop
  | put {p : StatePath} (hpath : pathIsState s.path = some p) (hmethod : s.method = bytes "PUT")
    (hmay : ¬Blocked s .resStatePut)
  | delete {p : StatePath} (hpath : pathIsState s.path = some p) (hmethod : s.method = bytes "DELETE")
    (hmay : ¬Blocked s .resStateDelete)
  | plugin (hpath : pathIsV1 s.path) (hmay : ¬Blocked s .resOpenai)

theorem not_blocked_of_none {s : EdgeHttp1Serve η} {w : ServeWorld P υ} {outCap : ℕ}
    {res : EdgeAuthResource} (h : requireRbac s w outCap res = none) : ¬Blocked s res := by
  rw [← requireRbac_isSome_iff s w outCap res, h]
  exact Bool.false_ne_true

theorem writer_of_stateWorld (env : ServeEnv η P υ) (s : EdgeHttp1Serve η) (w : ServeWorld P υ)
    (outCap : ℕ) (hchange : (stateWorld env s w outCap).store ≠ w.store) : Writer s := by
  unfold stateWorld at hchange
  cases hpath : pathIsState s.path with
  | none =>
    rw [dispatchState, hpath] at hchange
    exact absurd rfl hchange
  | some p =>
    have hclass := classify_of_state hpath s.method p.isList
    have houtcome := dispatchState_outcome env w outCap hpath
    generalize dispatchState env s w outCap = r at houtcome hchange
    cases houtcome with
    | denied hrbac => exact absurd (requireRbac_store hrbac) hchange
    | unavailable => exact absurd (answer_store ..) hchange
    | get => exact absurd (stateGetRoute_store ..) hchange
    | badKey => exact absurd (answer_store ..) hchange
    | put hrbac hst hput =>
      refine .put hpath hput ?_
      rw [hclass, hput] at hrbac
      exact not_blocked_of_none hrbac
    | delete hrbac hst hdelete =>
      refine .delete hpath hdelete ?_
      rw [hclass, hdelete] at hrbac
      exact not_blocked_of_none hrbac
    | method => exact absurd (answer_store ..) hchange

theorem writer_of_v1 (env : ServeEnv η P υ) (s : EdgeHttp1Serve η) (w : ServeWorld P υ) (outCap : ℕ)
    {h : EdgePluginHost P} (hv1 : v1Host s w = some h)
    (hchange : (dispatchV1 env s w outCap h).world.store ≠ w.store) : Writer s := by
  have hpath : pathIsV1 s.path = true := by
    unfold v1Host at hv1
    exact (Option.ite_none_right_eq_some.mp hv1).1
  refine .plugin hpath fun hblocked => hchange ?_
  unfold dispatchV1
  cases edgePluginHostMatch h s.path with
  | none => exact answer_store ..
  | some p =>
    dsimp only
    rw [if_pos hblocked.1]
    have hdenied := (requireRbac_isSome_iff s w outCap .resOpenai).mpr hblocked
    obtain ⟨denied, hrbac⟩ := Option.isSome_iff_exists.mp hdenied
    rw [hrbac]
    exact requireRbac_store hrbac

theorem writer_of_dispatch (env : ServeEnv η P υ) (s : EdgeHttp1Serve η) (w : ServeWorld P υ)
    (outCap : ℕ) (hchange : (dispatch env s w outCap).world.store ≠ w.store) : Writer s := by
  unfold dispatch at hchange
  cases hlogin : dispatchLabLogin env s w outCap with
  | some r =>
    rw [hlogin] at hchange
    exact absurd ((keepsAll_labLogin hlogin).store) hchange
  | none =>
    rw [hlogin] at hchange
    cases hme : dispatchAuthMe s w outCap with
    | some r =>
      rw [hme] at hchange
      exact absurd ((keepsAll_authMe hme).store) hchange
    | none =>
      rw [hme] at hchange
      cases hv1 : v1Host s w with
      | some h =>
        rw [hv1] at hchange
        exact writer_of_v1 env s w outCap hv1 hchange
      | none =>
        rw [hv1] at hchange
        dsimp only at hchange
        unfold dispatchApi at hchange
        split_ifs at hchange
        · exact absurd keepsAll_stream.store hchange
        · cases hroute : dispatchState env s w outCap with
          | some r =>
            rw [hroute] at hchange
            refine writer_of_stateWorld env s w outCap ?_
            rwa [stateWorld, hroute]
          | none =>
            rw [hroute] at hchange
            exact absurd keepsAll_get.store hchange

/-- The place of the body says nothing about who may write. -/
theorem Writer.of_bodyOff {s : EdgeHttp1Serve η} {off : Option ℕ} (h : Writer { s with bodyOff := off }) :
    Writer s := by
  cases h with
  | put hpath hmethod hmay => exact .put hpath hmethod hmay
  | delete hpath hmethod hmay => exact .delete hpath hmethod hmay
  | plugin hpath hmay => exact .plugin hpath hmay

/-- **A feed that changes the store has served a request that may.** -/
theorem writer_of_feed (env : ServeEnv η P υ) (s : EdgeHttp1Serve η) (w : ServeWorld P υ) (data : Bytes)
    (outCap : ℕ) (hchange : (edgeHttp1ServeFeed env s w data outCap).world.store ≠ w.store) :
    Writer (parsedServe env s w.hub data) := by
  unfold edgeHttp1ServeFeed at hchange
  dsimp only at hchange
  split_ifs at hchange
  · exact absurd rfl hchange
  · exact absurd rfl hchange
  · rw [finishServed_world, answer_store] at hchange
    exact absurd rfl hchange
  · rw [finishServed_world, answer_store] at hchange
    exact absurd rfl hchange
  · show Writer (feedParser env s (countInput w data).hub data).1
    generalize (feedParser env s (countInput w data).hub data) = parsed at hchange ⊢
    cases hready : readyRequest parsed.1 with
    | none =>
      obtain ⟨off, hwait⟩ := feedParsed_of_not_ready (P := P) (υ := υ) hready
      rw [hwait] at hchange
      exact absurd rfl hchange
    | some s' =>
      rw [feedParsed_of_ready env _ outCap hready, finishServed_world] at hchange
      have hwriter := writer_of_dispatch env s' { countInput w data with hub := parsed.2.1 } outCap hchange
      obtain ⟨off, rfl⟩ := readyRequest_eq hready
      exact hwriter.of_bodyOff

/-! ## Turns of the loop -/

/-- Every connection has the auth context that the process gives to the new ones. -/
def Authed (o : LoopOpts η) (conns : List (Conn η ω)) : Prop :=
  ∀ (i : ℕ) (c : Conn η ω) (s : EdgeHttp1Serve η), conns[i]? = some c → c.http = some s →
    s.auth = o.newServe.auth

theorem Authed.set {o : LoopOpts η} {conns : List (Conn η ω)} (h : Authed o conns) {c c' : Conn η ω}
    (hc : conns[c.slot]? = some c) (hauth : KeepsAuth o c c') : Authed o (conns.set c.slot c') := by
  intro i d s hd hs
  rcases eq_or_ne c.slot i with rfl | hne
  · rw [List.getElem?_set_self (List.getElem?_eq_some_iff.mp hc).1] at hd
    obtain rfl := Option.some.inj hd
    rcases hauth s hs with hnew | ⟨s₀, hs₀, hsame⟩
    · exact hnew
    · exact hsame.trans (h c.slot c s₀ hc hs₀)
  · rw [List.getElem?_set_ne hne] at hd
    exact h i d s hd hs

/-- **No connection exchanges its auth context.** -/
theorem authed_loopInv (o : LoopOpts η) :
    LoopInv o (AnyFeed η P υ) True fun (_ : ServeWorld P υ) (conns : List (Conn η ω)) =>
      Slotted conns ∧ Authed o conns where
  slotted h := h.1
  conn h hc hslot _ hauth := ⟨h.1.set hslot, h.2.set hc hauth⟩
  count _ h := h
  take _ h := h
  close h hc hslot _ hauth := ⟨h.1.set hslot, h.2.set hc hauth⟩
  promote h hc hslot _ hauth _ _ := ⟨h.1.set hslot, h.2.set hc hauth⟩
  feed _ _ _ _ h _ := h
  scrape _ _ h _ _ := h

/-- A feed that leaves the store as it is. -/
def LeavesStore (η P υ : Type*) : FeedCond η P υ := fun env s w data outCap =>
  (edgeHttp1ServeFeed env s w data outCap).world.store = w.store

/-- Without such a feed and without a scrape, the loop leaves the store as it is. -/
theorem sameStore_loopInv (o : LoopOpts η) (start : Option StateStore) :
    LoopInv o (LeavesStore η P υ) False fun (w : ServeWorld P υ) (conns : List (Conn η ω)) =>
      Slotted conns ∧ w.store = start where
  slotted h := h.1
  conn h _ hslot _ _ := ⟨h.1.set hslot, h.2⟩
  count _ h := h
  take {io _} slot h := by
    unfold takePending
    cases io.world.hub <;> exact h
  close h _ hslot _ _ := ⟨h.1.set hslot, h.2⟩
  promote h _ hslot _ _ _ _ := ⟨h.1.set hslot, h.2⟩
  feed _ _ _ _ h hsame := ⟨h.1, hsame.trans h.2⟩
  scrape _ _ _ _ hno := hno.elim

/-- A turn that may change the store: one that scrapes, or one that serves a request that may, on a
connection with the auth context of the process. -/
inductive WritingTurn (o : LoopOpts η) (srv : Server η P υ ω) : LoopEvent η P υ ω → Prop
  | scrape (env : LoopEnv η P υ ω) (taken : ℕ) : WritingTurn o srv (.timeout env taken)
  | request {env : LoopEnv η P υ ω} {slot owner taken : ℕ} {data : Bytes} {c : Conn η ω}
    {s : EdgeHttp1Serve η} (hslot : srv.conns[slot]? = some c) (hstate : c.state = .recv)
    (hhttp : c.http = some s) (hauth : s.auth = o.newServe.auth)
    (hwriter : Writer (parsedServe env.serve s srv.io.world.hub data)) :
    WritingTurn o srv (.received env slot owner (.ok data) taken)

theorem writingTurn_of_change {o : LoopOpts η} {srv : Server η P υ ω} (hslotted : Slotted srv.conns)
    (hauthed : Authed o srv.conns) (ev : LoopEvent η P υ ω)
    (hchange : (loopStep o srv ev).io.world.store ≠ srv.io.world.store) : WritingTurn o srv ev := by
  by_contra hno
  have hpermits : Permits (LeavesStore η P υ) False o srv ev := by
    cases ev with
    | accepted => trivial
    | sent => trivial
    | timeout env taken => exact (hno (.scrape env taken)).elim
    | received env slot owner res taken =>
      rintro c s data hslot rfl hstate hhttp
      by_contra hwrites
      have hwriter := writer_of_feed _ _ _ _ _ hwrites
      exact hno (.request hslot hstate hhttp (hauthed slot c s hslot hhttp) hwriter)
  -- Such a turn has no other way to the store.
  have hsame := (sameStore_loopInv o srv.io.world.store).loopStep_kept ev hpermits ⟨hslotted, rfl⟩
  exact hchange hsame.2

/-- **Who writes to the store of a running process**: in every turn of every run over plain TCP, whatever
the kernel completes and in which order, the store changes only in a turn that may scrape, or in one that
serves a request that may write, by the auth context that the process was started with. -/
theorem writers_of_storeChange (o : LoopOpts η) (n : ℕ) (world : ServeWorld P υ)
    (evs : List (LoopEvent η P υ ω)) :
    EachStep (loopStep o) (fun srv ev =>
      (loopStep o srv ev).io.world.store ≠ srv.io.world.store → WritingTurn o srv ev)
      (loopStart n world) evs := by
  have hstart : Slotted (loopStart (η := η) (ω := ω) n world).conns ∧
      Authed o (loopStart (η := η) (ω := ω) n world).conns := by
    refine ⟨loopStart_slotted n world, fun i c s hc hs => ?_⟩
    rw [loopStart_idle hc] at hs
    cases hs
  generalize loopStart n world = srv at hstart
  induction evs generalizing srv with
  | nil => trivial
  | cons ev evs ih =>
    exact ⟨writingTurn_of_change hstart.1 hstart.2 ev,
      ih _ ((authed_loopInv o).loopStep_kept ev (permits_any o srv ev) hstart)⟩

end Edgehost
