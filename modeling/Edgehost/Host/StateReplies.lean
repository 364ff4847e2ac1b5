import Edgehost.Host.StateChanged
import Edgehost.Host.Mediation

/-!
# Replies of the state API

A GET on the state API is answered in the send buffer of the connection, which `edge_iouring_run` sizes
by the limit on static files and not by what the store may hold.

* `length_listBody`: the size of a listing, from the lengths of its keys.
* `dispatch_of_state`: a request for a state path is answered by `dispatch_state`.
* `getComplete_iff`: when a GET is answered.
-/

namespace Edgehost

variable {η P υ : Type*}

/-! ## Sizes -/

/-- The bytes of a listing before its end, when `n` stand there already: a comma and two quotes for each
key, as long as the buffer has room for a key of any length. -/
def listingEnd : ℕ → List Bytes → ℕ
  | n, [] => n
  | n, key :: keys =>
    if n + EDGE_STATE_KEY_MAX + 4 < 8192 then listingEnd (n + key.length + 3) keys else n

/-- The bytes of a listing. -/
def listingSize : List Bytes → ℕ
  | [] => 11
  | key :: keys => listingEnd (key.length + 11) keys + 2

/-- The bytes of a reply of status 200 with a JSON text of `n` bytes. -/
def replySize (n : ℕ) : ℕ := 88 + (decimal n).length + n

/-- The end that is counted is the length that is printed. -/
theorem length_listKeys (acc : Bytes) (keys : List Bytes) :
    (listKeys acc keys).length = listingEnd acc.length keys := by
  induction keys generalizing acc with
  | nil => rfl
  | cons key keys ih =>
    unfold listKeys listingEnd
    split_ifs
    · rw [ih]
      congr 1
      simp only [quoted, List.length_append, List.length_cons, List.length_nil]
      omega
    · rfl

/-- Keys that the store can hold leave room for the end of the listing. -/
theorem listingEnd_lt {n : ℕ} {keys : List Bytes} (hn : n < 8190)
    (hkeys : ∀ k ∈ keys, k.length < EDGE_STATE_KEY_MAX) : listingEnd n keys < 8190 := by
  induction keys generalizing n with
  | nil => exact hn
  | cons key keys ih =>
    have hkey := hkeys key List.mem_cons_self
    unfold listingEnd
    split_ifs with hroom
    · simp only [EDGE_STATE_KEY_MAX] at hkey hroom
      exact ih (by omega) fun k hk => hkeys k (List.mem_cons_of_mem key hk)
    · exact hn

/-- The size of a listing. -/
theorem length_listBody {keys : List Bytes} (hkeys : ∀ k ∈ keys, k.length < EDGE_STATE_KEY_MAX) :
    (listBody keys).length = listingSize keys := by
  cases keys with
  | nil => decide
  | cons key keys =>
    have hkey := hkeys key List.mem_cons_self
    have hfront : (bytes "\x7b\"keys\":[").length = 9 := by decide
    have hstart : (bytes "\x7b\"keys\":[" ++ quoted key).length = key.length + 11 := by
      simp only [quoted, List.length_append, List.length_cons, List.length_nil, hfront]
      omega
    have hend : listingEnd (key.length + 11) keys < 8190 := by
      simp only [EDGE_STATE_KEY_MAX] at hkey
      exact listingEnd_lt (by omega) fun k hk => hkeys k (List.mem_cons_of_mem _ hk)
    unfold listBody listingSize
    dsimp only
    rw [length_listKeys, hstart, if_pos (by omega), List.length_append, length_listKeys, hstart]
    rfl

/-- It fits the buffer of the list. -/
theorem listingSize_le {keys : List Bytes} (hkeys : ∀ k ∈ keys, k.length < EDGE_STATE_KEY_MAX) :
    listingSize keys ≤ 8191 := by
  cases keys with
  | nil => decide
  | cons key keys =>
    have hkey := hkeys key List.mem_cons_self
    simp only [EDGE_STATE_KEY_MAX] at hkey
    have hend := listingEnd_lt (n := key.length + 11) (by omega)
      fun k hk => hkeys k (List.mem_cons_of_mem key hk)
    show listingEnd (key.length + 11) keys + 2 ≤ 8191
    omega

theorem length_responseHead_json (status : ℤ) (reason : Bytes) (n : ℕ) :
    (responseHead status reason jsonType [] n).length
      = 83 + (decimalInt status).length + reason.length + (decimal n).length := by
  have hfixed : (responseHead 0 [] jsonType [] 0).length = 85 := by decide
  have hzero : (decimal 0).length = 1 ∧ (decimalInt 0).length = 1 := by decide
  simp only [responseHead, List.length_append, List.length_nil] at hfixed ⊢
  omega

theorem length_decimal_le {n k : ℕ} (hk : 0 < k) (hn : n < 10 ^ k) : (decimal n).length ≤ k := by
  rw [decimal, List.length_map, Nat.length_toDigits_le_iff (by decide) hk]
  exact hn

/-! ## Complete replies -/

/-- The call returns 1 with a whole response of this status and text. -/
def Replies (r : Served η P υ) (status : ℤ) (reason text : Bytes) : Prop :=
  r.ret = 1 ∧ r.out = responseHead status reason jsonType [] text.length ++ text

/-- An answer is its head and its body, if both fit. -/
theorem answer_eq (s : EdgeHttp1Serve η) (w : ServeWorld P υ) {outCap : ℕ} (hcap : 64 ≤ outCap)
    (status : ℤ) (reason ctype body : Bytes) :
    answer s w outCap status reason ctype body
      = if (responseHead status reason ctype [] body.length).length + body.length < outCap then
          ⟨s, { w with metrics := noteResponse w.metrics status }, 1,
            responseHead status reason ctype [] body.length ++ body⟩
        else ⟨s, w, -1, []⟩ := by
  have hbuilt := buildResponse_eq hcap status reason ctype body
  rw [buildResponse] at hbuilt
  rw [answer, answerEx, hbuilt]
  split_ifs <;> rfl

/-- It is sent exactly when they fit. -/
theorem answer_replies_iff (s : EdgeHttp1Serve η) (w : ServeWorld P υ) {outCap : ℕ}
    (hcap : 64 ≤ outCap) (status : ℤ) (reason body : Bytes) :
    Replies (answer s w outCap status reason jsonType body) status reason body ↔
      (responseHead status reason jsonType [] body.length).length + body.length < outCap := by
  rw [answer_eq s w hcap]
  split_ifs with hfits
  · exact iff_of_true ⟨rfl, rfl⟩ hfits
  · exact iff_of_false (fun h => absurd h.1 (show ¬(-1 : ℤ) = 1 by decide)) hfits

/-- The replies for errors of the store are short. -/
theorem length_errToHttp (e : EdgeStateErr) :
    (responseHead (errToHttp e).1 (errToHttp e).2.1 jsonType [] (errToHttp e).2.2.length).length
      + (errToHttp e).2.2.length < 256 := by
  have hparts : (decimalInt (errToHttp e).1).length ≤ 3 ∧ (errToHttp e).2.1.length ≤ 32 ∧
      (errToHttp e).2.2.length ≤ 32 := by
    cases e <;> decide
  have hdigits := length_decimal_le (n := (errToHttp e).2.2.length) (k := 2) (by decide) (by omega)
  rw [length_responseHead_json]
  omega

/-! ## What the store holds -/

/-- The value of a key after one operation is the one before, or was just put. -/
theorem lastPutStep_cases {ns key x : Bytes} {v : Option Bytes} {op : StateOp} {r : StateReply}
    (h : lastPutStep ns key v (op, r) = some x) :
    v = some x ∨ (op = .put ns key x ∧ r = .status .ok) := by
  unfold lastPutStep at h
  split at h
  · rename_i ns' key' value heq
    obtain ⟨rfl, rfl⟩ := Prod.mk.inj heq
    split_ifs at h with hsame
    · obtain rfl := Option.some.inj h
      exact .inr ⟨by rw [hsame.1, hsame.2], rfl⟩
    · exact .inl h
  · split_ifs at h
    exact .inl h
  · exact .inl h

/-- **In every reachable store** the keys are valid and the values keep to the limit. -/
theorem StateRun.entry_ok (cfg : EdgeStateConfig) (ops : List StateOp) {ns key v : Bytes}
    (h : (runFrom StateRun.step (.create cfg) ops).store.toMap.entry ns key = some v) :
    edgeStateKeyValid key = true ∧ v.length ≤ cfg.maxValue := by
  have hrun : (runFrom StateRun.step (.create cfg) ops).Inv cfg ∧
      ∀ ns key v, (runFrom StateRun.step (.create cfg) ops).store.toMap.entry ns key = some v →
        edgeStateKeyValid key = true ∧ v.length ≤ cfg.maxValue := by
    refine runFrom_of_step
      (P := fun r : StateRun => r.Inv cfg ∧ ∀ ns key v, r.store.toMap.entry ns key = some v →
        edgeStateKeyValid key = true ∧ v.length ≤ cfg.maxValue) ?_ ?_ ops
    · rintro r op ⟨hinv, hold⟩
      refine ⟨StateRun.step_inv r op hinv, fun ns key v hv => ?_⟩
      have hmax : r.store.maxValue = cfg.maxValue := congrArg StateLimits.maxValue hinv.limits
      obtain ⟨-, -, hstep⟩ := op.refines hinv.wf
      rw [StateRun.step, hstep.entry] at hv
      rcases lastPutStep_cases hv with hbefore | ⟨rfl, hok⟩
      · exact hold ns key v hbefore
      · obtain ⟨hvalid, -, hlen⟩ := edgeStatePut_ok_args (StateReply.status.inj hok)
        exact ⟨hvalid, hmax ▸ hlen⟩
    · have hcreate := StateRun.create_inv cfg
      refine ⟨hcreate, fun ns key v hv => ?_⟩
      rw [hcreate.entry_eq] at hv
      cases hv
  exact hrun.2 ns key v h

/-- A state of a store that was created with these limits. -/
def ReachedStore (cfg : EdgeStateConfig) (st : StateStore) : Prop :=
  ∃ ops, (runFrom StateRun.step (.create cfg) ops).store = st

/-- A store that is reached is well formed. -/
theorem ReachedStore.wf {cfg : EdgeStateConfig} {st : StateStore} (h : ReachedStore cfg st) :
    st.WF := by
  obtain ⟨ops, rfl⟩ := h
  exact (runFrom_of_step (P := StateRun.Inv cfg) (fun r op h => StateRun.step_inv r op h)
    (StateRun.create_inv cfg) ops).wf

/-- Its values are within the limit. -/
theorem ReachedStore.entry_le {cfg : EdgeStateConfig} {st : StateStore} (h : ReachedStore cfg st)
    {ns key v : Bytes} (hv : st.toMap.entry ns key = some v) : v.length ≤ cfg.maxValue := by
  obtain ⟨ops, rfl⟩ := h
  exact (StateRun.entry_ok cfg ops hv).2

/-- Its keys are valid. -/
theorem ReachedStore.key_valid {cfg : EdgeStateConfig} {st : StateStore} (h : ReachedStore cfg st)
    {ns key v : Bytes} (hv : st.toMap.entry ns key = some v) : edgeStateKeyValid key = true := by
  obtain ⟨ops, rfl⟩ := h
  exact (StateRun.entry_ok cfg ops hv).1

/-- A value that a GET finds is an entry of the store. -/
theorem entry_of_edgeStateGet {st : StateStore} (hwf : st.WF) {ns key value : Bytes} {n outCap : ℕ}
    {limit : ℕ} (hlimit : ∀ v, st.toMap.entry ns key = some v → v.length ≤ limit)
    (hcap : limit < outCap) (h : edgeStateGet st ns key outCap = .ok (value, n)) :
    value.length ≤ limit := by
  have href := edgeStateGet_refines hwf ns key outCap
  cases hget : st.toMap.get ns key with
  | error e =>
    rw [hget] at href
    rw [h] at href
    cases href
  | ok v =>
    have hentry : st.toMap.entry ns key = some v := by
      unfold StateMap.get at hget
      cases hb : st.toMap.lookup ns with
      | none =>
        rw [hb] at hget
        cases hget
      | some b =>
        rw [hb] at hget
        dsimp only at hget
        split_ifs at hget
        rw [StateMap.entry_of_lookup hb]
        split at hget
        · cases hget
        · rename_i v' hv
          rw [hv, Except.ok.inj hget]
    have hv := hlimit v hentry
    rw [hget] at href
    have hval := (href (by omega)).symm.trans h
    rwa [(Prod.mk.inj (Except.ok.inj hval)).1] at hv

/-- The keys of a listing have the size of a key buffer. -/
theorem length_of_mem_edgeStateList {st : StateStore} {ns pfx : Bytes} {maxKeys : ℕ}
    {keys : List Bytes} (h : edgeStateList st ns pfx maxKeys = some keys) :
    ∀ k ∈ keys, k.length < EDGE_STATE_KEY_MAX := by
  unfold edgeStateList at h
  obtain ⟨-, h⟩ := Option.ite_none_left_eq_some.mp h
  cases hns : findNs st ns with
  | none =>
    rw [hns] at h
    cases h
  | some x =>
    rw [hns] at h
    obtain ⟨-, h⟩ := Option.ite_none_left_eq_some.mp h
    obtain rfl := Option.some.inj h
    intro k hk
    obtain ⟨e, -, rfl⟩ := List.mem_map.mp hk
    exact Nat.lt_of_le_of_lt (length_snprintf_le _ _) (by decide)

/-! ## The route -/

/-- The call returns 1 with a whole response. -/
def Complete (r : Served η P υ) : Prop := ∃ status reason text, Replies r status reason text

/-- A request for a single key, or a listing with room in the send buffer. -/
def GetFits (outCap : ℕ) (st : StateStore) (p : StatePath) : Prop :=
  p.isList = true → ∀ keys, edgeStateList st p.ns p.pfx 64 = some keys →
    replySize (listingSize keys) < outCap

/-- An answer that fits is complete. -/
theorem Complete.of_answer (s : EdgeHttp1Serve η) (w : ServeWorld P υ) {outCap : ℕ}
    (hcap : 64 ≤ outCap) {status : ℤ} {reason body : Bytes}
    (hfits : (responseHead status reason jsonType [] body.length).length + body.length < outCap) :
    Complete (answer s w outCap status reason jsonType body) :=
  ⟨status, reason, body, (answer_replies_iff s w hcap status reason body).mpr hfits⟩

/-- One that does not is given up. -/
theorem not_complete_of_full (s : EdgeHttp1Serve η) (w : ServeWorld P υ) {outCap : ℕ}
    (hcap : 64 ≤ outCap) {status : ℤ} {reason body : Bytes}
    (hfull : ¬(responseHead status reason jsonType [] body.length).length + body.length < outCap) :
    (answer s w outCap status reason jsonType body).ret = -1 := by
  rw [answer_eq s w hcap, if_neg hfull]

/-- **When a GET on the state API is answered**, in a store with values of at most `limit` bytes. -/
theorem stateGetRoute_complete_iff (s : EdgeHttp1Serve η) (w : ServeWorld P υ) {outCap : ℕ}
    (hcap : EDGE_WS_MSG_MAX + 32 ≤ outCap) {st : StateStore} (hwf : st.WF) (p : StatePath)
    (hlimit : ∀ v, st.toMap.entry p.ns p.key = some v → v.length ≤ EDGE_STATE_VALUE_DEFAULT) :
    Complete (stateGetRoute s w outCap st p) ↔ GetFits outCap st p := by
  simp only [EDGE_WS_MSG_MAX] at hcap
  have hcap64 : 64 ≤ outCap := by omega
  have herr : ∀ e, Complete (answerErr s w outCap e) := fun e =>
    .of_answer s w hcap64 (Nat.lt_of_lt_of_le (length_errToHttp e) (by omega))
  unfold stateGetRoute GetFits
  by_cases hlist : p.isList = true
  · rw [if_pos hlist]
    cases hkeys : edgeStateList st p.ns p.pfx 64 with
    | none => exact iff_of_true (herr _) fun _ keys h => nomatch h
    | some keys =>
      have hsize := length_listBody (length_of_mem_edgeStateList hkeys)
      have hhead := length_responseHead_json 200 (bytes "OK") (listBody keys).length
      have hparts : (decimalInt 200).length = 3 ∧ (bytes "OK").length = 2 := by decide
      have hreply : (responseHead 200 (bytes "OK") jsonType [] (listBody keys).length).length
          + (listBody keys).length = replySize (listingSize keys) := by
        rw [hhead, replySize, hsize]
        omega
      constructor
      · rintro ⟨status, reason, text, hret, -⟩ - keys' hkeys'
        obtain rfl := Option.some.inj hkeys'
        by_contra hfull
        rw [← hreply] at hfull
        have hfail := not_complete_of_full s w hcap64 hfull
        exact absurd (hfail.symm.trans hret) (by decide)
      · intro hfits
        exact .of_answer s w hcap64 (hreply ▸ hfits hlist keys rfl)
  · rw [if_neg hlist]
    refine iff_of_true ?_ fun h => absurd h hlist
    cases hget : edgeStateGet st p.ns p.key (EDGE_STATE_VALUE_MAX + 1) with
    | error e => exact herr e
    | ok x =>
      obtain ⟨value, n⟩ := x
      have hvalue := entry_of_edgeStateGet hwf hlimit (by decide) hget
      have hhead := length_responseHead_json 200 (bytes "OK") value.length
      have hparts : (decimalInt 200).length = 3 ∧ (bytes "OK").length = 2 := by decide
      simp only [EDGE_STATE_VALUE_DEFAULT] at hvalue
      have hdigits := length_decimal_le (n := value.length) (k := 4) (by decide) (by omega)
      exact .of_answer s w hcap64 (by omega)

/-- The paths of the state API are no other routes. -/
theorem dispatch_of_state (env : ServeEnv η P υ) {s : EdgeHttp1Serve η} (w : ServeWorld P υ)
    (outCap : ℕ) {p : StatePath} (hpath : pathIsState s.path = some p) :
    dispatch env s w outCap
      = match dispatchState env s w outCap with
        | some r => r
        | none => dispatchGet env s w outCap := by
  have hfront : bytes "/api/v1/state/" <+: s.path := by
    unfold pathIsState at hpath
    obtain ⟨hpre, -⟩ := Option.ite_none_left_eq_some.mp hpath
    exact List.isPrefixOf_iff_prefix.mp (by simpa using hpre)
  have hapi : bytes "/api" <+: s.path :=
    (show bytes "/api" <+: bytes "/api/v1/state/" by decide).trans hfront
  have hlogin : dispatchLabLogin env s w outCap = none :=
    if_pos (by rw [pathIsLabLogin, not_isRoute hapi (by decide) (by decide)]; rfl)
  have hme : dispatchAuthMe s w outCap = none :=
    if_pos (by rw [pathIsAuthMe, not_isRoute hapi (by decide) (by decide)]; rfl)
  have hv1 : v1Host s w = none :=
    if_neg fun h => absurd (List.prefix_of_prefix_length_le (prefix_of_pathIsV1 h) hapi (by decide))
      (by decide)
  have hstream : edgeWsPathIsStream s.path = false :=
    not_isRoute hfront (by decide) (by decide)
  rw [dispatch, hlogin, hme, hv1]
  dsimp only
  rw [dispatchApi, hstream]
  rfl

/-- The limits of `edge_state_default_config`. -/
def edgeStateDefaultConfig : EdgeStateConfig where
  maxKeysPerNs := EDGE_STATE_KEYS_DEFAULT
  maxValueBytes := EDGE_STATE_VALUE_DEFAULT

/-- An authorised GET on the state API. -/
structure StateGet (s : EdgeHttp1Serve η) (p : StatePath) : Prop where
  path : pathIsState s.path = some p
  method : s.method = bytes "GET"
  authorised : Authorised s (edgeAuthClassify s.method s.path p.isList)

/-- The gate lets an authorised request through. -/
theorem requireRbac_of_authorised {s : EdgeHttp1Serve η} {res : EdgeAuthResource}
    (h : Authorised s res) (w : ServeWorld P υ) (outCap : ℕ) : requireRbac s w outCap res = none := by
  by_cases hres : res = .resNone
  · unfold requireRbac
    rw [hres, decide_eq_true rfl, Bool.or_true]
    rfl
  · exact (requireRbac_eq_none_iff s w outCap hres).mpr h

/-- A GET of the state comes to its route. -/
theorem dispatch_stateGet (env : ServeEnv η P υ) {s : EdgeHttp1Serve η} {w : ServeWorld P υ}
    {p : StatePath} (hreq : StateGet s p) {st : StateStore} (hst : w.store = some st) (outCap : ℕ) :
    dispatch env s w outCap = stateGetRoute s w outCap st p := by
  rw [dispatch_of_state env w outCap hreq.path, dispatchState, hreq.path]
  dsimp only
  rw [requireRbac_of_authorised hreq.authorised, hst]
  dsimp only
  rw [if_pos hreq.method]

theorem complete_finishServed_iff (r : Served η P υ) : Complete (finishServed r) ↔ Complete r := by
  unfold finishServed
  split_ifs
  · exact Iff.rfl
  · exact Iff.rfl

/-- An authorised GET that is fed, over a store with short values. -/
theorem feed_stateGet_complete_iff {env : ServeEnv η P υ} {s s' : EdgeHttp1Serve η}
    {w w' : ServeWorld P υ} {data : Bytes} {p : StatePath} {st : StateStore} {outCap : ℕ}
    (hcap : EDGE_WS_MSG_MAX + 32 ≤ outCap) (hfeed : feedRequest env s w data = some (s', w'))
    (hreq : StateGet s' p) (hst : w'.store = some st) (hwf : st.WF)
    (hlimit : ∀ v, st.toMap.entry p.ns p.key = some v → v.length ≤ EDGE_STATE_VALUE_DEFAULT) :
    Complete (edgeHttp1ServeFeed env s w data outCap) ↔ GetFits outCap st p := by
  rw [feed_of_feedRequest hfeed, complete_finishServed_iff, dispatch_stateGet env hreq hst]
  exact stateGetRoute_complete_iff s' w' hcap hwf p hlimit

/-- **When a GET on the state API is answered.** For every configuration and every state of a store with
the default limits, an authorised GET that is fed gets a whole response exactly when it asks for one key,
or the listing has room in the send buffer. -/
theorem getComplete_iff (cfg : EdgeConfig) (env : ServeEnv η P υ) {s s' : EdgeHttp1Serve η}
    {w w' : ServeWorld P υ} {data : Bytes} {p : StatePath} {st : StateStore}
    (hfeed : feedRequest env s w data = some (s', w')) (hreq : StateGet s' p)
    (hst : w'.store = some st) (hreached : ReachedStore edgeStateDefaultConfig st) :
    Complete (edgeHttp1ServeFeed env s w data (sendCap cfg)) ↔ GetFits (sendCap cfg) st p :=
  feed_stateGet_complete_iff (msgMax_le_sendCap cfg) hfeed hreq hst hreached.wf
    fun _ hv => hreached.entry_le hv

/-! ### Many long keys -/

/-- Without a cut the size of a listing is a sum. -/
theorem listingEnd_of_room {n : ℕ} {keys : List Bytes}
    (hroom : n + (keys.map fun k => k.length + 3).sum ≤ 8060) :
    listingEnd n keys = n + (keys.map fun k => k.length + 3).sum := by
  induction keys generalizing n with
  | nil => rfl
  | cons key keys ih =>
    rw [List.map_cons, List.sum_cons] at hroom ⊢
    have hmax : EDGE_STATE_KEY_MAX = 128 := rfl
    rw [listingEnd, if_pos (by omega), ih (by omega)]
    omega

/-- A namespace is enabled and holds these keys. -/
def HoldsKeys (m : StateMap) (ns : Bytes) (keys : Finset Bytes) : Prop :=
  ∃ b, m.lookup ns = some b ∧ b.enabled = true ∧ b.entries.keys = keys

/-- A put into a namespace with room adds its key. -/
theorem HoldsKeys.put {m : StateMap} {ns : Bytes} {keys : Finset Bytes} (h : HoldsKeys m ns keys)
    (lim : StateLimits) {key value : Bytes} (hkey : edgeStateKeyValid key = true)
    (hlen : value.length ≤ lim.maxValue) (hjson : edgeStateJsonOk value = true)
    (hroom : keys.card < lim.maxKeys) : HoldsKeys (m.put lim ns key value).1 ns (insert key keys) := by
  obtain ⟨b, hb, hon, rfl⟩ := h
  have hput : m.put lim ns key value
      = (m.insert ns { b with entries := b.entries.insert key value }, .ok) := by
    unfold StateMap.put
    rw [hb]
    dsimp only
    rw [hon, hkey, hjson, if_neg (by decide), if_neg (by decide), if_neg (by omega),
      if_neg (by decide), if_neg fun hfull => absurd hfull.2 (Nat.ne_of_lt hroom)]
  rw [hput]
  refine ⟨_, Finmap.lookup_insert _, hon, ?_⟩
  ext k
  simp [Finmap.mem_keys]

/-- A well-formed store in which this namespace is enabled. -/
structure EnabledIn (st : StateStore) (ns : Bytes) : Prop where
  wf : st.WF
  flag_eq : st.toMap.flag ns = some true

/-- Registering another namespace leaves the flag. -/
theorem EnabledIn.register {st : StateStore} {ns name : Bytes} (h : EnabledIn st ns)
    (hname : ¬(name = [] ∨ name.length ≥ 64)) (hne : name ≠ ns) (enabled alloc : Bool) :
    EnabledIn (registerNs st name enabled alloc).1 ns := by
  rw [registerNs_eq hname]
  have hset := edgeStateNsSetEnabled_refines h.wf name enabled alloc
  refine ⟨hset.wf, ?_⟩
  rw [hset.toMap, (st.toMap.setEnabled_frame name enabled alloc).2 ns hne, h.flag_eq]

/-- `net.core` is enabled from the start. -/
theorem enabledIn_create (cfg : EdgeStateConfig) :
    EnabledIn (edgeStateCreateWithConfig cfg) (bytes "net.core") := by
  have hempty : (⟨[], cfg.maxKeys, cfg.maxValue⟩ : StateStore).WF :=
    ⟨by simp, by intro i j x y hx; simp at hx, by simp⟩
  have hfirst : EnabledIn (registerNs ⟨[], cfg.maxKeys, cfg.maxValue⟩ (bytes "net.core") true true).1
      (bytes "net.core") := by
    rw [registerNs_eq (by decide)]
    have hset := edgeStateNsSetEnabled_refines hempty (bytes "net.core") true true
    exact ⟨hset.wf, by rw [hset.toMap]; rfl⟩
  unfold edgeStateCreateWithConfig
  refine .register (.register (.register (.register (.register hfirst ?_ ?_ _ _) ?_ ?_ _ _)
    ?_ ?_ _ _) ?_ ?_ _ _) ?_ ?_ _ _ <;> decide
/-- Keys put one after the other into an empty store. -/
def putAll (ns value : Bytes) (keys : List Bytes) : List StateOp := keys.map fun key => .put ns key value

/-- A namespace without entries holds no key. -/
theorem HoldsKeys.of_empty {m : StateMap} {ns : Bytes} (hflag : m.flag ns = some true)
    (hempty : ∀ key, m.entry ns key = none) : HoldsKeys m ns ∅ := by
  obtain ⟨b, hb, hon⟩ := Option.map_eq_some_iff.mp hflag
  refine ⟨b, hb, hon, Finset.eq_empty_of_forall_notMem fun k hk => ?_⟩
  obtain ⟨v, hv⟩ := Finmap.mem_iff.mp (Finmap.mem_keys.mp hk)
  have hnone := hempty k
  rw [StateMap.entry_of_lookup hb, hv] at hnone
  cases hnone

theorem StateRun.create_store (cfg : EdgeStateConfig) :
    (StateRun.create cfg).store = edgeStateCreateWithConfig cfg := by
  unfold StateRun.create
  generalize edgeStateCreateWithConfig cfg = st
  rfl

theorem holdsKeys_create (cfg : EdgeStateConfig) :
    HoldsKeys (StateRun.create cfg).store.toMap (bytes "net.core") ∅ := by
  rw [StateRun.create_store]
  exact .of_empty (enabledIn_create cfg).flag_eq ((edgeStateCreateWithConfig_fresh cfg).entry_eq _)

/-- Valid keys that are not too many are all held. -/
theorem holdsKeys_putAll (cfg : EdgeStateConfig) (value : Bytes) (hlen : value.length ≤ cfg.maxValue)
    (hjson : edgeStateJsonOk value = true) {keys : List Bytes}
    (hvalid : ∀ k ∈ keys, edgeStateKeyValid k = true) (hmany : keys.length ≤ cfg.maxKeys) :
    ∃ r : StateRun, runFrom StateRun.step (.create cfg) (putAll (bytes "net.core") value keys) = r ∧
      r.Inv cfg ∧ HoldsKeys r.store.toMap (bytes "net.core") keys.toFinset := by
  induction keys using List.reverseRecOn with
  | nil => exact ⟨.create cfg, rfl, StateRun.create_inv cfg, holdsKeys_create cfg⟩
  | append_singleton keys key ih =>
    rw [List.length_append, List.length_singleton] at hmany
    obtain ⟨r, hr, hinv, hholds⟩ := ih (fun k hk => hvalid k (List.mem_append_left _ hk)) (by omega)
    have hcard := keys.toFinset_card_le
    have hput := hholds.put cfg.limits
      (hvalid key (List.mem_append_right _ (List.mem_singleton_self key))) hlen hjson
      (Nat.lt_of_le_of_lt hcard hmany)
    refine ⟨r.step (.put (bytes "net.core") key value), ?_, StateRun.step_inv _ _ hinv, ?_⟩
    · rw [putAll, List.map_append, runFrom_append, ← putAll, hr]
      rfl
    · have hmap := (edgeStatePut_refines hinv.wf (bytes "net.core") key value).toMap
      rw [hinv.limits] at hmap
      rw [List.toFinset_append, Finset.union_comm, List.toFinset_cons, List.toFinset_nil,
        insert_empty_eq, ← Finset.insert_eq]
      exact hmap ▸ hput

/-- A listing of all keys of a namespace that holds at most 64. -/
theorem edgeStateList_of_holdsKeys {st : StateStore} (hwf : st.WF) {ns : Bytes} {keys : Finset Bytes}
    (h : HoldsKeys st.toMap ns keys) (hfew : keys.card ≤ 64) :
    ∃ ks, edgeStateList st ns [] 64 = some ks ∧ ks.Nodup ∧ ks.toFinset = keys := by
  obtain ⟨b, hb, hon, rfl⟩ := h
  have hreply := edgeStateList_refines hwf ns [] 64
  cases hlist : edgeStateList st ns [] 64 with
  | none =>
    rw [hlist] at hreply
    rcases hreply with hzero | hoff
    · exact absurd hzero (by decide)
    · exact absurd (hon.symm.trans (hoff b hb)) (by decide)
  | some ks =>
    rw [hlist] at hreply
    obtain ⟨-, b', hb', -, hlists⟩ := hreply
    obtain rfl := Option.some.inj (hb.symm.trans hb')
    have hall := hlists.all (by simpa using hfew.trans (show 64 ≤ min 64 EDGE_STATE_LIST_CAP by decide))
    refine ⟨ks, rfl, hlists.nodup, Finset.ext fun k => ?_⟩
    rw [List.mem_toFinset, Finmap.mem_keys]
    exact ⟨fun hk => (hlists.live k hk).1, fun hk => hall k hk List.nil_prefix⟩

/-- A key of 127 bytes with the number `i`. -/
def longKey (i : ℕ) : Bytes := List.replicate 124 (charByte 'k') ++ decimal (100 + i)

/-- Forty keys of 127 bytes. -/
def longKeys : List Bytes := (List.range 40).map longKey

theorem length_longKey {i : ℕ} (hi : i < 64) : (longKey i).length = 127 := by
  have hdigits : ∀ i < 64, (decimal (100 + i)).length = 3 := by decide
  rw [longKey, List.length_append, List.length_replicate, hdigits i hi]

/-- A longest key is valid. -/
theorem edgeStateKeyValid_longKey {i : ℕ} (hi : i < 64) : edgeStateKeyValid (longKey i) = true := by
  have hlen := length_longKey hi
  have hbytes : (longKey i).all keyByteOk = true := by
    refine List.all_eq_true.mpr fun c hc => ?_
    rcases List.mem_append.mp hc with hk | hd
    · rw [List.eq_of_mem_replicate hk]
      decide
    · simp [keyByteOk, isdigit_of_mem_decimal hd]
  unfold edgeStateKeyValid
  rw [if_neg (fun hnil => by rw [hnil] at hlen; cases hlen), hlen, if_neg (by decide)]
  exact hbytes

/-- They differ. -/
theorem longKey_injective : Function.Injective longKey := by
  intro i j h
  have hdigits := congrArg digitsValue (List.append_cancel_left h)
  rw [digitsValue_decimal, digitsValue_decimal] at hdigits
  omega

theorem nodup_map_longKey (n : ℕ) : ((List.range n).map longKey).Nodup :=
  List.nodup_range.map longKey_injective

theorem length_of_mem_map_longKey {n : ℕ} (hn : n ≤ 64) {k : Bytes}
    (h : k ∈ (List.range n).map longKey) : k.length = 127 := by
  obtain ⟨i, hi, rfl⟩ := List.mem_map.mp h
  exact length_longKey ((List.mem_range.mp hi).trans_le hn)

theorem length_longKeys : longKeys.length = 40 := by
  rw [longKeys, List.length_map, List.length_range]

/-- A store with the default limits can hold the first ones. -/
theorem exists_keys_held {n : ℕ} (hn : n ≤ 64) : ∃ st, ReachedStore edgeStateDefaultConfig st ∧
    HoldsKeys st.toMap (bytes "net.core") ((List.range n).map longKey).toFinset := by
  have hvalid : ∀ k ∈ (List.range n).map longKey, edgeStateKeyValid k = true := by
    intro k hk
    obtain ⟨i, hi, rfl⟩ := List.mem_map.mp hk
    exact edgeStateKeyValid_longKey ((List.mem_range.mp hi).trans_le hn)
  have hmany : ((List.range n).map longKey).length ≤ edgeStateDefaultConfig.maxKeys := by
    have hmax : edgeStateDefaultConfig.maxKeys = 1024 := by decide
    rw [List.length_map, List.length_range]
    omega
  obtain ⟨r, hr, -, hholds⟩ := holdsKeys_putAll edgeStateDefaultConfig
    (bytes "1") (by decide) (by decide) hvalid hmany
  exact ⟨r.store, ⟨_, congrArg StateRun.store hr⟩, hholds⟩

/-- A store is reached that holds forty of them. -/
theorem exists_longKeys_held : ∃ st, ReachedStore edgeStateDefaultConfig st ∧
    HoldsKeys st.toMap (bytes "net.core") longKeys.toFinset :=
  exists_keys_held (by decide)

/-- Their listing, in whatever order, is longer than 5000 bytes. -/
theorem listingSize_of_perm {ks : List Bytes} (h : ks.Perm longKeys) : listingSize ks = 5210 := by
  have hlen : ks.length = 40 := h.length_eq.trans length_longKeys
  have hkeys : ∀ k ∈ ks, k.length = 127 := fun k hk =>
    length_of_mem_map_longKey (by decide) (h.mem_iff.mp hk)
  obtain ⟨key, keys, rfl⟩ := List.exists_cons_of_length_eq_add_one hlen
  have hkey := hkeys key List.mem_cons_self
  have hsum : (keys.map fun k => k.length + 3).sum = 39 * 130 := by
    have hrest : keys.map (fun k => k.length + 3) = List.replicate 39 130 := by
      refine List.eq_replicate_iff.mpr ⟨?_, fun n hn => ?_⟩
      · simpa using hlen
      · obtain ⟨k, hk, rfl⟩ := List.mem_map.mp hn
        rw [hkeys k (List.mem_cons_of_mem key hk)]
    rw [hrest]
    decide
  have hend : listingEnd (key.length + 11) keys = _ := listingEnd_of_room (by omega)
  show listingEnd (key.length + 11) keys + 2 = 5210
  omega

/-- A parser that finds a GET for this path in whatever comes. -/
def getParser (path : Bytes) : Http1Parser Unit where
  feedInput _ _ := ([(.requestLine (bytes "GET") path, ()), (.headersComplete, ())], ())
  getHeader _ _ _ := none
  isWebsocketUpgrade _ := false

def getEnv (path : Bytes) : ServeEnv Unit Unit Unit :=
  { replyingEnv [] with parser := getParser path }

/-- A process with this store and nothing else. -/
def storeWorld (st : StateStore) : ServeWorld Unit Unit :=
  { replyingWorld with
    store := some st
    plugins := none }

/-- A new connection with the request for this path. -/
def getServe (path : Bytes) : EdgeHttp1Serve Unit :=
  { modelsServe with path }

def listPath : Bytes := bytes "/api/v1/state/net.core"

theorem feedRequest_list (st : StateStore) :
    feedRequest (getEnv listPath) freshServe (storeWorld st) [71]
      = some (getServe listPath, storeWorld st) := by
  rfl

theorem stateGet_list :
    StateGet (getServe listPath) ⟨bytes "net.core", [], [], true⟩ where
  path := by decide
  method := rfl
  authorised := fun h => absurd h (by decide)

/-- Under the default configuration such a listing is answered when it has room. -/
theorem getComplete_iff_longKeys :
    ∃ st, ReachedStore edgeStateDefaultConfig st ∧
      HoldsKeys st.toMap (bytes "net.core") longKeys.toFinset ∧
      (Complete (edgeHttp1ServeFeed (getEnv listPath) freshServe (storeWorld st) [71]
          (sendCap edgeConfigDefaults)) ↔
        GetFits (sendCap edgeConfigDefaults) st ⟨bytes "net.core", [], [], true⟩) := by
  obtain ⟨st, hreached, hholds⟩ := exists_longKeys_held
  exact ⟨st, hreached, hholds, getComplete_iff edgeConfigDefaults (getEnv listPath)
    (feedRequest_list st) stateGet_list rfl hreached⟩

/-- A limit of one kilobyte on static files. -/
def smallFiles : EdgeConfig := { edgeConfigDefaults with staticMaxFileBytes := 1024 }

/-- The send buffer has no room for a listing of forty long keys. -/
theorem not_getFits_longKeys {st : StateStore} (hwf : st.WF)
    (h : HoldsKeys st.toMap (bytes "net.core") longKeys.toFinset) :
    ¬GetFits (sendCap smallFiles) st ⟨bytes "net.core", [], [], true⟩ := by
  intro hfits
  have hcard : longKeys.toFinset.card ≤ 64 :=
    longKeys.toFinset_card_le.trans (by rw [length_longKeys]; decide)
  obtain ⟨ks, hks, hnodup, hset⟩ := edgeStateList_of_holdsKeys hwf h hcard
  have hperm : ks.Perm longKeys :=
    List.perm_of_nodup_nodup_toFinset_eq hnodup (nodup_map_longKey 40) hset
  have hsize := listingSize_of_perm hperm
  have hroom := hfits rfl ks hks
  rw [hsize] at hroom
  exact absurd hroom (by decide)

/-- A listing of forty long keys closes the connection. -/
theorem not_getComplete_longKeys :
    ¬ ∀ (cfg : EdgeConfig) (env : ServeEnv Unit Unit Unit) (s s' : EdgeHttp1Serve Unit)
      (w w' : ServeWorld Unit Unit) (data : Bytes) (p : StatePath) (st : StateStore),
      edgeConfigValidate (some cfg) 0 = .ok () → feedRequest env s w data = some (s', w') →
      StateGet s' p → w'.store = some st → ReachedStore edgeStateDefaultConfig st →
      Complete (edgeHttp1ServeFeed env s w data (sendCap cfg)) := by
  intro hall
  obtain ⟨st, hreached, hholds⟩ := exists_longKeys_held
  have hcomplete := hall smallFiles (getEnv listPath) freshServe (getServe listPath) (storeWorld st)
    (storeWorld st) [71] _ st (by decide) (feedRequest_list st) stateGet_list rfl hreached
  rw [feed_stateGet_complete_iff (msgMax_le_sendCap smallFiles) (feedRequest_list st) stateGet_list rfl
    hreached.wf fun _ hv => hreached.entry_le hv] at hcomplete
  exact not_getFits_longKeys hreached.wf hholds hcomplete

end Edgehost
