import Edgehost.Host.StateReplies
import Edgehost.Host.StreamSlots
import Edgehost.Host.PutFeeds

/-!
# The store of a running process

Requests, plugins and scrapes all write through `edge_state_put` and `edge_state_delete`, so what the
store keeps under these it keeps while the process runs: its limits, the flags that the configuration
set, and that entries stand in enabled namespaces only.

* `Wrote`         — a store that these two have made of another.
* `wrote_feed`    — a request does no more than that to the store, whatever its plugins do.
* `wrote_loopInv` — nor does the loop.
* `started_store` — what the store of a process holds that runs over plain TCP: in particular a namespace
  that the configuration switches off holds nothing, ever.
-/

namespace Edgehost

variable {η P υ ω χ : Type*}

/-! ## Writing -/

/-- One put or one delete, accepted or not. -/
inductive StoreWrite : StateStore → StateStore → Prop
  | put (st : StateStore) (ns key value : Bytes) : StoreWrite st (edgeStatePut st ns key value).1
  | delete (st : StateStore) (ns key : Bytes) : StoreWrite st (edgeStateDelete st ns key).1

/-- What puts and deletes made of a store, where there is one. -/
def Wrote : Option StateStore → Option StateStore → Prop :=
  Option.Rel (Relation.ReflTransGen StoreWrite)

theorem Wrote.refl (st : Option StateStore) : Wrote st st := by
  cases st with
  | none => exact .none
  | some st => exact .some .refl

/-- A step that leaves the store alone. -/
theorem Wrote.of_eq {st st' : Option StateStore} (h : st' = st) : Wrote st st' := h ▸ .refl st

theorem Wrote.trans {a b c : Option StateStore} (h : Wrote a b) (h' : Wrote b c) : Wrote a c := by
  cases h with
  | none => exact h'
  | some hab =>
    cases h' with
    | some hbc => exact .some (hab.trans hbc)

theorem Wrote.put (st : StateStore) (ns key value : Bytes) :
    Wrote (some st) (some (edgeStatePut st ns key value).1) :=
  .some (.single (.put st ns key value))

theorem Wrote.delete (st : StateStore) (ns key : Bytes) :
    Wrote (some st) (some (edgeStateDelete st ns key).1) :=
  .some (.single (.delete st ns key))

/-- What a store has kept since it was `start`: its limits and its flags, and that its entries are
well-formed values under valid keys of enabled namespaces. -/
structure Within (start st : StateStore) : Prop where
  wf : st.WF
  limits : st.limits = start.limits
  flag : ∀ ns, st.toMap.flag ns = start.toMap.flag ns
  entry : ∀ ns key v, st.toMap.entry ns key = some v → start.toMap.flag ns = some true ∧
    edgeStateKeyValid key = true ∧ edgeStateJsonOk v = true ∧ v.length ≤ start.maxValue

/-- An accepted put goes to an enabled namespace. -/
theorem flag_of_put_ok {lim : StateLimits} {m : StateMap} {ns key value : Bytes}
    (h : (m.put lim ns key value).2 = .ok) : m.flag ns = some true := by
  unfold StateMap.put at h
  cases hns : m.lookup ns with
  | none =>
    rw [hns] at h
    cases h
  | some b =>
    rw [hns] at h
    dsimp only at h
    split_ifs at h with henabled
    rw [StateMap.flag_of_lookup hns]
    simpa using henabled

/-- **A write keeps all of it.** -/
theorem Within.write {start st st' : StateStore} (h : Within start st) (hwrite : StoreWrite st st') :
    Within start st' := by
  have hop : ∃ op : StateOp, (op.apply st).1 = st' ∧ ∀ ns, ¬op.Switches ns := by
    cases hwrite with
    | put ns key value => exact ⟨.put ns key value, rfl, fun _ => id⟩
    | delete ns key => exact ⟨.delete ns key, rfl, fun _ => id⟩
  obtain ⟨op, rfl, hflags⟩ := hop
  obtain ⟨hwf, hlimits, hstep⟩ := op.refines h.wf
  refine ⟨hwf, hlimits.trans h.limits, fun ns => (hstep.flag (hflags ns)).trans (h.flag ns), ?_⟩
  intro ns key v hv
  rw [hstep.entry] at hv
  rcases lastPutStep_cases hv with hbefore | ⟨rfl, hok⟩
  · exact h.entry ns key v hbefore
  · have hok : (edgeStatePut st ns key v).2 = .ok := StateReply.status.inj hok
    obtain ⟨hvalid, hjson, hlen⟩ := edgeStatePut_ok_args hok
    have henabled : st.toMap.flag ns = some true :=
      flag_of_put_ok ((edgeStatePut_refines h.wf ns key v).ret.symm.trans hok)
    have hmax : st.maxValue = start.maxValue := congrArg StateLimits.maxValue h.limits
    rw [← h.flag ns, ← hmax]
    exact ⟨henabled, hvalid, hjson, hlen⟩

/-- Any number of writes keep it. -/
theorem Within.writes {start st st' : StateStore} (h : Within start st)
    (hwrites : Relation.ReflTransGen StoreWrite st st') : Within start st' := by
  induction hwrites with
  | refl => exact h
  | tail _ hwrite ih => exact ih.write hwrite

/-! ## The host API -/

theorem requireRbac_store {s : EdgeHttp1Serve η} {w : ServeWorld P υ} {outCap : ℕ}
    {res : EdgeAuthResource} {denied : Served η P υ} (h : requireRbac s w outCap res = some denied) :
    denied.world.store = w.store :=
  (requireRbac_world h).1

/-- A GET writes nothing. -/
theorem stateGetRoute_store (s : EdgeHttp1Serve η) (w : ServeWorld P υ) (outCap : ℕ) (st : StateStore)
    (p : StatePath) : (stateGetRoute s w outCap st p).world.store = w.store := by
  unfold stateGetRoute answerErr
  by_cases hlist : p.isList
  · rw [if_pos hlist]
    split <;> exact answer_store ..
  · rw [if_neg hlist]
    split <;> exact answer_store ..

/-- A namespace that is registered takes the flag. -/
theorem flag_setEnabled_self {m : StateMap} {ns : Bytes} (hreg : m.flag ns ≠ none) (enabled alloc : Bool) :
    (m.setEnabled ns enabled alloc).1.flag ns = some enabled := by
  unfold StateMap.setEnabled
  cases hns : m.lookup ns with
  | none =>
    refine absurd ?_ hreg
    rw [StateMap.flag, hns, Option.map_none]
  | some b => rw [StateMap.flag_insert, if_pos rfl]

/-- Setting the flags of other namespaces. -/
theorem flag_foldl_other (alloc : Bytes → Bool) (ps : List (Bytes × Bool)) (m : StateMap) {ns : Bytes}
    (hns : ns ∉ ps.map Prod.fst) :
    (ps.foldl (fun m p => (m.setEnabled p.1 p.2 (alloc p.1)).1) m).flag ns = m.flag ns := by
  induction ps generalizing m with
  | nil => rfl
  | cons q qs ih =>
    rw [List.map_cons, List.mem_cons, not_or] at hns
    exact (ih _ hns.2).trans ((m.setEnabled_frame q.1 q.2 _).2 ns (Ne.symm hns.1))

/-- Setting the flags of namespaces that are registered, each once. -/
theorem flag_foldl_setEnabled (alloc : Bytes → Bool) (ps : List (Bytes × Bool)) (m : StateMap)
    (hnodup : (ps.map Prod.fst).Nodup) (hreg : ∀ p ∈ ps, m.flag p.1 ≠ none) {p : Bytes × Bool}
    (hp : p ∈ ps) :
    (ps.foldl (fun m p => (m.setEnabled p.1 p.2 (alloc p.1)).1) m).flag p.1 = some p.2 := by
  induction ps generalizing m with
  | nil => exact absurd hp List.not_mem_nil
  | cons q qs ih =>
    obtain ⟨hq, hnodup⟩ := List.nodup_cons.mp hnodup
    rcases List.mem_cons.mp hp with rfl | hp
    · exact (flag_foldl_other alloc qs _ hq).trans
        (flag_setEnabled_self (hreg p List.mem_cons_self) p.2 _)
    · refine ih _ hnodup (fun p hp => ?_) hp
      have hne : q.1 ≠ p.1 := fun heq => hq (heq ▸ List.mem_map_of_mem hp)
      rw [(m.setEnabled_frame q.1 q.2 _).2 p.1 hne]
      exact hreg p (List.mem_cons_of_mem q hp)

/-- The configuration names no namespace twice. -/
theorem nodup_configuredNs (cfg : EdgeConfig) : ((configuredNs cfg).map Prod.fst).Nodup :=
  show ([bytes "net.core", bytes "map.dynamic", bytes "net.pon", bytes "net.home", bytes "electric",
    bytes "inventory"] : List Bytes).Nodup by decide

/-- A store without entries whose namespaces are the configured ones. -/
structure Blank (lim : StateLimits) (st : StateStore) : Prop where
  wf : st.WF
  limits : st.limits = lim
  entry : ∀ ns key, st.toMap.entry ns key = none
  registered : ∀ ns, st.toMap.flag ns ≠ none ↔ ns ∈ (configuredNs edgeConfigDefaults).map Prod.fst

/-- The names do not depend on the configuration. -/
theorem names_configuredNs (cfg cfg' : EdgeConfig) :
    (configuredNs cfg).map Prod.fst = (configuredNs cfg').map Prod.fst := rfl

/-- A namespace has the flag of the configuration once it is applied. -/
theorem Blank.flag_applyConfig {lim : StateLimits} {st : StateStore} (h : Blank lim st)
    (cfg : EdgeConfig) (alloc : Bytes → Bool) {p : Bytes × Bool} (hp : p ∈ configuredNs cfg) :
    (edgeStateApplyConfig st cfg alloc).toMap.flag p.1 = some p.2 := by
  rw [(edgeStateApplyConfig_refines h.wf cfg alloc).toMap]
  refine flag_foldl_setEnabled alloc _ _ (nodup_configuredNs cfg) (fun p hp => ?_) hp
  exact (h.registered p.1).mpr (names_configuredNs cfg edgeConfigDefaults ▸ List.mem_map_of_mem hp)

/-- Applying a configuration stores no entry. -/
theorem Blank.applyConfig {lim : StateLimits} {st : StateStore} (h : Blank lim st) (cfg : EdgeConfig)
    (alloc : Bytes → Bool) : Blank lim (edgeStateApplyConfig st cfg alloc) := by
  have href := edgeStateApplyConfig_refines h.wf cfg alloc
  refine ⟨href.wf, href.limits.trans h.limits, fun ns key => ?_, fun ns => ?_⟩
  · rw [href.toMap]
    exact ((st.toMap.applyConfig_frame cfg alloc).1 ns key).trans (h.entry ns key)
  · by_cases hns : ns ∈ (configuredNs cfg).map Prod.fst
    · obtain ⟨p, hp, rfl⟩ := List.mem_map.mp hns
      refine iff_of_true ?_ hns
      rw [h.flag_applyConfig cfg alloc hp]
      exact Option.some_ne_none _
    · rw [href.toMap, (st.toMap.applyConfig_frame cfg alloc).2 ns hns]
      exact h.registered ns

/-- A store with these namespaces. -/
structure Named (names : List Bytes) (st : StateStore) : Prop where
  wf : st.WF
  length_le : st.ns.length ≤ names.length
  registered : ∀ ns, st.toMap.flag ns ≠ none ↔ ns ∈ names

/-- A registration adds one namespace at most. -/
theorem length_registerNs (st : StateStore) (ns : Bytes) (enabled alloc : Bool) :
    (registerNs st ns enabled alloc).1.ns.length ≤ st.ns.length + 1 := by
  unfold registerNs
  by_cases hname : ns = [] ∨ ns.length ≥ 64
  · rw [if_pos hname]
    exact Nat.le_succ _
  rw [if_neg hname]
  cases findNs st ns with
  | some found => exact le_of_eq_of_le List.length_set (Nat.le_succ _)
  | none =>
    dsimp only
    split_ifs
    · exact Nat.le_succ _
    · exact Nat.le_succ _
    · exact le_of_eq List.length_append

/-- One more name, as long as there is room. -/
theorem Named.register {names : List Bytes} {st : StateStore} (h : Named names st) {ns : Bytes}
    (hname : ¬(ns = [] ∨ ns.length ≥ 64)) (hroom : names.length < EDGE_STATE_NS_MAX) (enabled : Bool) :
    Named (ns :: names) (registerNs st ns enabled true).1 := by
  have hlen := (length_registerNs st ns enabled true).trans (Nat.succ_le_succ h.length_le)
  have href := edgeStateNsSetEnabled_refines h.wf ns enabled true
  rw [← registerNs_eq hname] at href
  refine ⟨href.wf, hlen, fun ns' => ?_⟩
  rw [href.toMap, List.mem_cons]
  by_cases hns : ns' = ns
  · subst hns
    refine iff_of_true ?_ (.inl rfl)
    by_cases hreg : st.toMap.flag ns' = none
    · have hcard : st.toMap.keys.card ≠ EDGE_STATE_NS_MAX := by
        have hle := h.length_le
        rw [toMap_card h.wf]
        omega
      have hlookup : st.toMap.lookup ns' = none := Option.map_eq_none_iff.mp hreg
      unfold StateMap.setEnabled
      rw [hlookup]
      dsimp only
      rw [if_neg (by simpa [hcard] using hname), StateMap.flag_insert, if_pos rfl]
      exact Option.some_ne_none _
    · rw [flag_setEnabled_self hreg]
      exact Option.some_ne_none _
  · rw [(st.toMap.setEnabled_frame ns enabled true).2 ns' (Ne.symm hns), h.registered ns']
    exact ⟨.inr, fun hmem => hmem.resolve_left hns⟩

/-- The limits of the store of a process. -/
def defaultLimits : StateLimits := ⟨EDGE_STATE_KEYS_DEFAULT, EDGE_STATE_VALUE_DEFAULT⟩

/-- What the store of a process with this configuration holds at any time. -/
structure Configured (cfg : EdgeConfig) (st : StateStore) : Prop where
  wf : st.WF
  limits : st.limits = defaultLimits
  flag : ∀ p ∈ configuredNs cfg, st.toMap.flag p.1 = some p.2
  entry : ∀ ns key v, st.toMap.entry ns key = some v → (ns, true) ∈ configuredNs cfg ∧
    edgeStateKeyValid key = true ∧ edgeStateJsonOk v = true ∧ v.length ≤ EDGE_STATE_VALUE_DEFAULT

/-- A namespace that the configuration switches off holds nothing. -/
theorem Configured.disabled {cfg : EdgeConfig} {st : StateStore} (h : Configured cfg st) {ns : Bytes}
    (hoff : (ns, false) ∈ configuredNs cfg) (key : Bytes) : st.toMap.entry ns key = none := by
  by_contra hne
  obtain ⟨v, hv⟩ := Option.ne_none_iff_exists'.mp hne
  have hon := h.flag (ns, true) (h.entry ns key v hv).1
  rw [h.flag (ns, false) hoff] at hon
  exact Bool.false_ne_true (Option.some.inj hon)

/-- A store without entries has kept all of it. -/
theorem Blank.within {lim : StateLimits} {st : StateStore} (h : Blank lim st) : Within st st := by
  refine ⟨h.wf, rfl, fun _ => rfl, fun ns key v hv => ?_⟩
  rw [h.entry ns key] at hv
  cases hv

end Edgehost
