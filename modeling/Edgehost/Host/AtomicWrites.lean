import Edgehost.Host.NotifySchema
import Edgehost.Host.StateReplies
import Edgehost.Host.StreamLaws

/-!
# Atomic writes

A request for a state path and a NOTIFY payload can fail at many points, from the path to the store. A
failure leaves the store and the queues of the subscribers as they were; what succeeds touches one entry. Of
a request this is the entry of its path. Of a payload it is the one that the text search finds, which can be
another one than the payload's own members address.

* `ReachedStore.onlyAt`: what a put or a delete can touch.
* `dispatchState_cases`: a request leaves the world alone, or is answered for the change it asks for.
* `notifyAtomic_iff`: the payloads that touch the entry they address.
* `stateWrites_atomic_iff`: the two writers.
-/

namespace Edgehost

variable {η P υ : Type*}

/-! ## Frames -/

/-- Two stores differ in this entry at most. -/
structure OnlyAt (st st' : StateStore) (ns key : Bytes) : Prop where
  entry : ∀ ns' key', ¬(ns = ns' ∧ key = key') →
    st'.toMap.entry ns' key' = st.toMap.entry ns' key'
  flag : ∀ ns', st'.toMap.flag ns' = st.toMap.flag ns'

theorem OnlyAt.refl (st : StateStore) (ns key : Bytes) : OnlyAt st st ns key :=
  ⟨fun _ _ _ => rfl, fun _ => rfl⟩

/-- The operation that a change is. -/
def StateChange.toOp (c : StateChange) : StateOp :=
  match c.value with
  | some value => .put c.ns c.key value
  | none => .delete c.ns c.key

theorem StateChange.apply_toOp (c : StateChange) (st : StateStore) :
    (c.toOp.apply st).1 = (c.apply st).1 := by
  obtain ⟨ns, key, _ | value⟩ := c <;> rfl

/-- **A change touches its own entry only.** -/
theorem ReachedStore.onlyAt {cfg : EdgeStateConfig} {st : StateStore} (h : ReachedStore cfg st)
    (c : StateChange) : OnlyAt st (c.apply st).1 c.ns c.key := by
  obtain ⟨ops, rfl⟩ := h
  have hmap := (StateRun.refinesMap cfg ops).last
  rw [← c.apply_toOp]
  refine ⟨fun ns' key' hne => hmap.frame_entry c.toOp ns' key' ?_, fun ns' =>
    hmap.frame_flag c.toOp ns' ?_⟩
  · unfold StateChange.toOp
    split <;> exact hne
  · unfold StateChange.toOp
    split <;> exact id

/-! ## Outcomes -/

/-- The call answers with this status. -/
def HasStatus (r : Served η P υ) (status : ℤ) : Prop :=
  r.ret = 1 ∧ bytes "HTTP/1.1 " ++ decimalInt status ++ [32] <+: r.out

/-- The call fails, or answers with an error. -/
def Failed (r : Served η P υ) : Prop := r.ret = -1 ∨ ∃ status, 400 ≤ status ∧ HasStatus r status

/-- The store and the queues are those of the world before. -/
def Untouched (w w' : ServeWorld P υ) : Prop :=
  w'.store = w.store ∧ w'.hub.map EdgeWsHub.subs = w.hub.map EdgeWsHub.subs

theorem Untouched.refl (w : ServeWorld P υ) : Untouched w w := ⟨rfl, rfl⟩

theorem Untouched.trans {w w₁ w₂ : ServeWorld P υ} (h : Untouched w w₁) (h' : Untouched w₁ w₂) :
    Untouched w w₂ := ⟨h'.1.trans h.1, h'.2.trans h.2⟩

theorem untouched_answer (s : EdgeHttp1Serve η) (w : ServeWorld P υ) (outCap : ℕ) (status : ℤ)
    (reason ctype body : Bytes) : Untouched w (answer s w outCap status reason ctype body).world :=
  ⟨answer_store .., by rw [answer_hub]⟩

theorem failed_finishServed_iff (r : Served η P υ) : Failed (finishServed r) ↔ Failed r := by
  unfold finishServed
  split_ifs <;> exact Iff.rfl

/-- A numeral and the blank behind it determine the number. -/
theorem decimalInt_blank_inj {a b : ℤ} (ha : 0 ≤ a) (hb : 0 ≤ b) {x y : Bytes}
    (h : decimalInt a ++ 32 :: x = decimalInt b ++ 32 :: y) : a = b := by
  obtain ⟨n, rfl⟩ := Int.eq_ofNat_of_zero_le ha
  obtain ⟨m, rfl⟩ := Int.eq_ofNat_of_zero_le hb
  have hblank : ¬isdigit 32 := by decide
  have hnat : n = m := decimal_sep_inj hblank hblank h
  rw [hnat]

/-- An answer of status 204 that fits is no failure. -/
theorem not_failed_noContent (s : EdgeHttp1Serve η) (w : ServeWorld P υ) {outCap : ℕ}
    (hcap : 1024 ≤ outCap) : ¬Failed (answer s w outCap 204 (bytes "No Content") jsonType []) := by
  have hhead := length_responseHead_json 204 (bytes "No Content") 0
  have hparts : (decimalInt 204).length = 3 ∧ (bytes "No Content").length = 10 ∧
      (decimal 0).length = 1 := by decide
  rw [answer_eq s w (by omega), if_pos (by rw [List.length_nil]; omega)]
  rintro (hret | ⟨status, hstatus, -, rest, hout⟩)
  · exact absurd hret (show ¬(1 : ℤ) = -1 by decide)
  · simp only [responseHead, List.append_assoc, List.append_cancel_left_eq, List.cons_append,
      List.nil_append] at hout
    have hsame := decimalInt_blank_inj (by omega) (by decide) hout
    omega

/-! ## Requests -/

/-- A request for a state path leaves the world alone, or is answered for the change it asks for. -/
theorem dispatchState_cases (env : ServeEnv η P υ) {s : EdgeHttp1Serve η} (w : ServeWorld P υ)
    (outCap : ℕ) {p : StatePath} (hpath : pathIsState s.path = some p) :
    Untouched w (dispatch env s w outCap).world ∨
      ∃ (st : StateStore) (c : StateChange), w.store = some st ∧ s.method ≠ bytes "GET" ∧
        c.ns = p.ns ∧ c.key = p.key ∧
        dispatch env s w outCap = answerChange env s w outCap p c.op c.value (c.apply st) := by
  rw [dispatch_of_state env w outCap hpath]
  have houtcome := dispatchState_outcome env w outCap hpath
  generalize dispatchState env s w outCap = out at houtcome ⊢
  cases houtcome with
  | denied hrbac =>
    obtain ⟨hstore, hhub⟩ := requireRbac_world hrbac
    exact .inl ⟨hstore, by rw [hhub]⟩
  | unavailable => exact .inl (untouched_answer ..)
  | @get st =>
    obtain ⟨hstore, hhub⟩ := stateGetRoute_world s w outCap st p
    exact .inl ⟨hstore, by rw [hhub]⟩
  | badKey => exact .inl (untouched_answer ..)
  | @put st _ hst hput _ =>
    have hget : s.method ≠ bytes "GET" := by rw [hput]; decide
    -- A PUT whose body is missing falls through to the routes for GET.
    have hother : dispatchGet env s w outCap = answer s w outCap 405 (bytes "Method Not Allowed")
        (bytes "text/plain") (bytes "method not allowed\n") := by
      rw [dispatchGet, hput]
      exact if_pos ⟨by decide, by decide⟩
    unfold statePutRoute
    cases s.bodyOff with
    | none =>
      dsimp only
      rw [hother]
      exact .inl (untouched_answer ..)
    | some off =>
      dsimp only
      by_cases hshort : s.contentLength ≥ 0 ∧ ((s.acc.drop off).length : ℤ) < s.contentLength
      · rw [if_pos hshort]
        dsimp only
        rw [hother]
        exact .inl (untouched_answer ..)
      · rw [if_neg hshort]
        exact .inr ⟨st, ⟨p.ns, p.key, some (bodyBytes s)⟩, hst, hget, rfl, rfl, rfl⟩
  | @delete st _ hst hdelete _ =>
    have hget : s.method ≠ bytes "GET" := by rw [hdelete]; decide
    exact .inr ⟨st, ⟨p.ns, p.key, none⟩, hst, hget, rfl, rfl, rfl⟩
  | method => exact .inl (untouched_answer ..)

/-- The answer to a change that the store refuses leaves the world alone, and one that it takes is no
failure. -/
theorem answerChange_cases (env : ServeEnv η P υ) (s : EdgeHttp1Serve η) {w : ServeWorld P υ}
    {outCap : ℕ} (hcap : 1024 ≤ outCap) (p : StatePath) (c : StateChange) {st : StateStore}
    (hst : w.store = some st) :
    Untouched w (answerChange env s w outCap p c.op c.value (c.apply st)).world ∨
      ¬Failed (answerChange env s w outCap p c.op c.value (c.apply st)) ∧
        (answerChange env s w outCap p c.op c.value (c.apply st)).world.store
          = some (c.apply st).1 := by
  unfold answerChange
  by_cases hok : (c.apply st).2 = .ok
  · rw [if_pos hok]
    exact .inr ⟨not_failed_noContent s _ hcap, by rw [answer_store]; rfl⟩
  · rw [if_neg hok]
    refine .inl ⟨?_, by rw [answerErr_hub]⟩
    rw [answerErr_store, StateChange.apply_of_ne_ok hok, hst]

/-- What a request for a state path may do. -/
structure RequestAtomic (w : ServeWorld P υ) (p : StatePath) (method : Bytes) (r : Served η P υ) :
    Prop where
  failed : Failed r → Untouched w r.world
  read : method = bytes "GET" → Untouched w r.world
  changed : ∀ (cfg : EdgeStateConfig) st, w.store = some st → ReachedStore cfg st →
    ∃ st', r.world.store = some st' ∧ OnlyAt st st' p.ns p.key

theorem RequestAtomic.of_untouched {w : ServeWorld P υ} {p : StatePath} {method : Bytes}
    {r : Served η P υ} (h : Untouched w r.world) : RequestAtomic w p method r where
  failed _ := h
  read _ := h
  changed _ st hst _ := ⟨st, h.1.trans hst, .refl st p.ns p.key⟩

theorem dispatch_atomic (env : ServeEnv η P υ) {s : EdgeHttp1Serve η} (w : ServeWorld P υ)
    {outCap : ℕ} (hcap : 1024 ≤ outCap) {p : StatePath} (hpath : pathIsState s.path = some p) :
    RequestAtomic w p s.method (dispatch env s w outCap) := by
  rcases dispatchState_cases env w outCap hpath with
    hsame | ⟨st, c, hst, hget, hns, hkey, hr⟩
  · exact .of_untouched hsame
  · rw [hr]
    rcases answerChange_cases env s hcap p c hst with hsame | ⟨hdone, hstore⟩
    · exact .of_untouched hsame
    · refine ⟨fun h => absurd h hdone, fun h => absurd h hget, fun cfg st' hst' hreached => ?_⟩
      obtain rfl := Option.some.inj (hst.symm.trans hst')
      exact ⟨_, hstore, hns ▸ hkey ▸ hreached.onlyAt c⟩

/-! ## Feeds -/

theorem feedRequest_untouched {env : ServeEnv η P υ} {s s' : EdgeHttp1Serve η}
    {w w' : ServeWorld P υ} {data : Bytes} (h : feedRequest env s w data = some (s', w')) :
    Untouched w w' := by
  obtain ⟨-, -, -, rfl⟩ := feedRequest_eq_some_iff.mp h
  exact ⟨rfl, feedParser_subs ..⟩

/-- **What a feed does that does not come to `dispatch`**: it waits for more or fails, or is answered with
a plain text, and leaves the world alone. -/
theorem feed_of_none {env : ServeEnv η P υ} {s : EdgeHttp1Serve η} {w : ServeWorld P υ} {data : Bytes}
    (h : feedRequest env s w data = none) (outCap : ℕ) :
    ∃ s' w', Untouched w w' ∧
      ((∃ ret : ℤ, ret ≠ 1 ∧ edgeHttp1ServeFeed env s w data outCap = ⟨s', w', ret, []⟩) ∨
        ∃ (status : ℤ) (reason body : Bytes), 13 ∉ reason ∧
          edgeHttp1ServeFeed env s w data outCap =
            finishServed (answer s' w' outCap status reason (bytes "text/plain") body)) := by
  unfold feedRequest at h
  unfold edgeHttp1ServeFeed
  by_cases hdone : s.done
  · rw [if_pos hdone]
    exact ⟨s, w, .refl w, Or.inl ⟨-1, by decide, rfl⟩⟩
  by_cases hdata : data = []
  · rw [if_neg hdone, if_pos hdata]
    exact ⟨s, w, .refl w, Or.inl ⟨0, by decide, rfl⟩⟩
  by_cases hroom : s.acc.length + data.length > EDGE_HTTP_ACC_MAX
  · rw [if_neg hdone, if_neg hdata, if_pos hroom]
    exact ⟨s, countInput w data, ⟨rfl, rfl⟩, Or.inr ⟨413, _, _, by decide, rfl⟩⟩
  rw [if_neg (by tauto)] at h
  rw [if_neg hdone, if_neg hdata]
  dsimp only at h ⊢
  rw [if_neg hroom]
  -- The parser may mint a request id in the hub; its queues stay.
  have hsubs : (feedParser env s (countInput w data).hub data).2.1.map EdgeWsHub.subs
      = w.hub.map EdgeWsHub.subs := feedParser_subs ..
  generalize feedParser env s (countInput w data).hub data = parsed at h hsubs ⊢
  obtain ⟨s₁, hub, bad⟩ := parsed
  have hmint : Untouched w { countInput w data with hub } := ⟨rfl, hsubs⟩
  cases bad with
  | true =>
    rw [if_pos rfl]
    exact ⟨s₁, _, hmint, Or.inr ⟨400, _, _, by decide, rfl⟩⟩
  | false =>
    rw [if_neg Bool.false_ne_true]
    rw [if_neg Bool.false_ne_true, Option.map_eq_none_iff] at h
    obtain ⟨off, hwait⟩ := feedParsed_of_not_ready h
    exact ⟨_, _, hmint, Or.inl ⟨0, by decide, hwait env _ outCap⟩⟩

theorem feed_untouched_of_none {env : ServeEnv η P υ} {s : EdgeHttp1Serve η} {w : ServeWorld P υ}
    {data : Bytes} (h : feedRequest env s w data = none) (outCap : ℕ) :
    Untouched w (edgeHttp1ServeFeed env s w data outCap).world := by
  obtain ⟨s', w', hsame, ⟨ret, -, heq⟩ | ⟨status, reason, body, -, heq⟩⟩ := feed_of_none h outCap
  · rw [heq]
    exact hsame
  · rw [heq, finishServed_world]
    exact hsame.trans (untouched_answer ..)

/-- What comes to `dispatch` is a request of this method for this state path. -/
def FeedsState (env : ServeEnv η P υ) (s : EdgeHttp1Serve η) (w : ServeWorld P υ) (data : Bytes)
    (p : StatePath) (method : Bytes) : Prop :=
  ∀ s' w', feedRequest env s w data = some (s', w') → pathIsState s'.path = some p ∧ s'.method = method

theorem feed_atomic {env : ServeEnv η P υ} {s : EdgeHttp1Serve η} {w : ServeWorld P υ}
    {data : Bytes} {p : StatePath} {method : Bytes} {outCap : ℕ} (hcap : 1024 ≤ outCap)
    (hfeed : FeedsState env s w data p method) :
    RequestAtomic w p method (edgeHttp1ServeFeed env s w data outCap) := by
  cases hreq : feedRequest env s w data with
  | none => exact .of_untouched (feed_untouched_of_none hreq outCap)
  | some x =>
    obtain ⟨s', w'⟩ := x
    obtain ⟨hpath, rfl⟩ := hfeed s' w' hreq
    have hsame := feedRequest_untouched hreq
    obtain ⟨hfailed, hread, hchanged⟩ := dispatch_atomic env w' hcap hpath
    rw [feed_of_feedRequest hreq]
    refine ⟨fun h => ?_, fun h => ?_, fun cfg st hst hreached => ?_⟩
    · rw [finishServed_world]
      exact hsame.trans (hfailed ((failed_finishServed_iff _).mp h))
    · rw [finishServed_world]
      exact hsame.trans (hread h)
    · rw [finishServed_world]
      exact hchanged cfg st (hsame.1.trans hst) hreached

/-! ## Notifications -/

/-- The texts that an object has as members of this name. -/
def memberTexts (json name : Bytes) : List Bytes :=
  match jsonParse json with
  | some (.obj ms) => ms.filterMap fun m =>
      match m.2 with
      | .str text => if m.1 = name then some text else none
      | _ => none
  | _ => []

/-- The members `ns` and `key` of a payload address this entry. -/
def Addresses (json ns key : Bytes) : Prop :=
  ns ∈ memberTexts json (bytes "ns") ∧ key ∈ memberTexts json (bytes "key")

instance (json ns key : Bytes) : Decidable (Addresses json ns key) :=
  inferInstanceAs (Decidable (_ ∧ _))

/-- What a payload may do; the entry that it addresses is that of its own members. -/
structure NotifyAtomic (st : StateStore) (hub : Option EdgeWsHub) (json : Bytes)
    (r : StateStore × Option EdgeWsHub × EdgeNotifyErr) : Prop where
  failed : r.2.2 ≠ .ok → r.1 = st ∧ r.2.1.map EdgeWsHub.subs = hub.map EdgeWsHub.subs
  changed : r.2.2 = .ok →
    (∀ ns key, ¬Addresses json ns key → r.1.toMap.entry ns key = st.toMap.entry ns key) ∧
      ∀ ns, r.1.toMap.flag ns = st.toMap.flag ns

/-- The texts behind the first quoted names of a payload are those of an entry that its members do not
address, and the store has room for the put, or the entry to delete. -/
def Redirected (st : StateStore) (json : Bytes) : Prop :=
  (∃ ns key value, LoosePut json ns key value ∧ ¬Addresses json ns key ∧ Room st ns key value ∧
      st.toMap.entry ns key ≠ some value) ∨
    ∃ ns key, LooseFields json ns key (bytes "delete") ∧ ¬Addresses json ns key ∧ Enabled st ns ∧
      st.toMap.entry ns key ≠ none

section

variable {st : StateStore} (hwf : st.WF) (ns key : Bytes)
include hwf

/-- The entries behind a put that is taken. -/
theorem entry_edgeStatePut {value : Bytes} (hok : (edgeStatePut st ns key value).2 = .ok)
    (ns' key' : Bytes) : (edgeStatePut st ns key value).1.toMap.entry ns' key' =
      if ns = ns' ∧ key = key' then some value else st.toMap.entry ns' key' := by
  have h := ((StateOp.put ns key value).refines hwf).2.2.entry ns' key'
  rw [show ((StateOp.put ns key value).apply st).2 = .status .ok from congrArg StateReply.status hok] at h
  exact h

/-- The entries behind a delete that removes one. -/
theorem entry_edgeStateDelete (hok : (edgeStateDelete st ns key).2 = .ok) (ns' key' : Bytes) :
    (edgeStateDelete st ns key).1.toMap.entry ns' key' =
      if ns = ns' ∧ key = key' then none else st.toMap.entry ns' key' := by
  have h := ((StateOp.delete ns key).refines hwf).2.2.entry ns' key'
  rw [show ((StateOp.delete ns key).apply st).2 = .status .ok from congrArg StateReply.status hok] at h
  exact h

theorem flag_edgeStatePut (value ns' : Bytes) :
    (edgeStatePut st ns key value).1.toMap.flag ns' = st.toMap.flag ns' :=
  ((StateOp.put ns key value).refines hwf).2.2.flag id

theorem flag_edgeStateDelete (ns' : Bytes) :
    (edgeStateDelete st ns key).1.toMap.flag ns' = st.toMap.flag ns' :=
  ((StateOp.delete ns key).refines hwf).2.2.flag id

end

/-- **A payload that is redirected changes an entry that it does not address.** -/
theorem not_notifyAtomic_of_redirected {st : StateStore} (hwf : st.WF) (hub : Option EdgeWsHub)
    (alloc : ℕ → Bool) {json : Bytes} (h : Redirected st json) :
    ¬NotifyAtomic st hub json (edgeNotifyApply st hub alloc json) := by
  intro hatomic
  rcases h with ⟨ns, key, value, hput, haddr, hroom, hentry⟩ | ⟨ns, key, hdelete, haddr, henabled, hentry⟩
  · have hok := (edgeStatePut_ok_iff hwf hput.fields.key_valid).mpr hroom
    rw [edgeNotifyApply_put st hub alloc (readsPut_iff.mpr hput), if_pos hok] at hatomic
    have hsame := (hatomic.changed rfl).1 ns key haddr
    rw [entry_edgeStatePut hwf ns key hok, if_pos ⟨rfl, rfl⟩] at hsame
    exact hentry hsame.symm
  · have hok := (edgeStateDelete_ok_iff hwf).mpr ⟨henabled, hentry⟩
    rw [edgeNotifyApply_delete st hub alloc (readsFields_iff.mpr hdelete), if_pos hok] at hatomic
    have hsame := (hatomic.changed rfl).1 ns key haddr
    rw [entry_edgeStateDelete hwf ns key hok, if_pos ⟨rfl, rfl⟩] at hsame
    exact hentry hsame.symm

/-- **A payload changes the entry that it addresses only, exactly when it is not redirected.** -/
theorem notifyAtomic_iff {st : StateStore} (hwf : st.WF) (hub : Option EdgeWsHub) (alloc : ℕ → Bool)
    (json : Bytes) :
    NotifyAtomic st hub json (edgeNotifyApply st hub alloc json) ↔ ¬Redirected st json := by
  refine ⟨fun hatomic h => not_notifyAtomic_of_redirected hwf hub alloc h hatomic, fun h => ?_⟩
  refine ⟨edgeNotifyApply_refused st hub alloc json, fun _ => ?_⟩
  rcases edgeNotifyApply_cases st hub alloc json with ⟨-, hst, -⟩ |
    ⟨ns, key, value, hput, hok, hr⟩ | ⟨ns, key, hdelete, hok, hr⟩ | ⟨ns, key, -, -, hr⟩
  · rw [hst]
    exact ⟨fun _ _ _ => rfl, fun _ => rfl⟩
  · rw [hr]
    refine ⟨fun ns' key' haddr => ?_, flag_edgeStatePut hwf ns key value⟩
    rw [entry_edgeStatePut hwf ns key hok]
    split_ifs with hsame
    · obtain ⟨rfl, rfl⟩ := hsame
      have hroom := (edgeStatePut_ok_iff hwf hput.fields.key_valid).mp hok
      by_contra hentry
      exact h (.inl ⟨ns, key, value, readsPut_iff.mp hput, haddr, hroom, Ne.symm hentry⟩)
    · rfl
  · rw [hr]
    refine ⟨fun ns' key' haddr => ?_, flag_edgeStateDelete hwf ns key⟩
    rw [entry_edgeStateDelete hwf ns key hok]
    split_ifs with hsame
    · obtain ⟨rfl, rfl⟩ := hsame
      obtain ⟨henabled, hentry⟩ := (edgeStateDelete_ok_iff hwf).mp hok
      exact absurd (.inr ⟨ns, key, readsFields_iff.mp hdelete, haddr, henabled, hentry⟩) h
    · rfl
  · rw [hr]
    exact ⟨fun _ _ _ => rfl, fun _ => rfl⟩

/-- A payload is not redirected when the search finds the entry that it addresses. -/
theorem not_redirected_of_found {st : StateStore} {json ns key : Bytes}
    (hns : edgeNotifyJsonStringField json (bytes "ns") 64 = some ns)
    (hkey : edgeNotifyJsonStringField json (bytes "key") EDGE_STATE_KEY_MAX = some key)
    (haddr : Addresses json ns key) : ¬Redirected st json := by
  have hfound : ∀ {ns' key' op : Bytes}, LooseFields json ns' key' op → Addresses json ns' key' := by
    intro ns' key' op hfields
    have hreads := readsFields_iff.mpr hfields
    obtain rfl := Option.some.inj (hns.symm.trans hreads.ns_field)
    obtain rfl := Option.some.inj (hkey.symm.trans hreads.key_field)
    exact haddr
  rintro (⟨ns', key', value, hput, hother, -⟩ | ⟨ns', key', hdelete, hother, -⟩)
  · exact hother (hfound hput.fields)
  · exact hother (hfound hdelete)

/-- `{"value":{"key":"b"},"ns":"net.core","key":"a","op":"put"}` -/
def nestedPayload : Bytes :=
  lbrace :: (quoted (bytes "value") ++ colon :: (lbrace :: (quoted (bytes "key") ++ colon ::
    (quoted (bytes "b") ++ rbrace :: comma :: (quoted (bytes "ns") ++ colon ::
      (quoted (bytes "net.core") ++ comma :: (quoted (bytes "key") ++ colon :: (quoted (bytes "a") ++
        comma :: (quoted (bytes "op") ++ colon :: (quoted (bytes "put") ++ [rbrace]))))))))))

/-- The first `"key"` of this payload is in its value, and the value is stored under `b`. -/
theorem not_notifyAtomic_nested : Addresses nestedPayload (bytes "net.core") (bytes "a") ∧
    ¬NotifyAtomic smallStore none nestedPayload
      (edgeNotifyApply smallStore none (fun _ => true) nestedPayload) := by
  refine ⟨by decide +kernel, ?_⟩
  obtain ⟨hwf, -, hempty⟩ :=
    edgeStateCreateWithConfig_fresh { maxKeysPerNs := 1, maxValueBytes := 16 }
  let value : Bytes := lbrace :: (quoted (bytes "key") ++ colon :: (quoted (bytes "b") ++ [rbrace]))
  have hreads : ReadsPut nestedPayload (bytes "net.core") (bytes "b") value :=
    ⟨⟨by decide, by decide, by decide +kernel, by decide +kernel, by decide +kernel, by decide⟩,
      by decide +kernel, by decide⟩
  have hroom : Room smallStore (bytes "net.core") (bytes "b") value :=
    (edgeStatePut_ok_iff hwf (by decide)).mp (by decide +kernel)
  have hentry : smallStore.toMap.entry (bytes "net.core") (bytes "b") ≠ some value := by
    rw [show smallStore.toMap.entry (bytes "net.core") (bytes "b") = none from hempty _ _]
    exact Option.some_ne_none value |>.symm
  exact not_notifyAtomic_of_redirected hwf none (fun _ => true)
    (.inl ⟨_, _, value, readsPut_iff.mp hreads, by decide +kernel, hroom, hentry⟩)

/-- **When the writers are atomic.** A request for a state path that fails, or is answered with an error, and
a payload with a result other than OK leave the store and all queues as they were; so does a GET. A request
that succeeds changes the store in the entry it addresses only, and so does a payload, exactly when it is not
redirected. -/
theorem stateWrites_atomic_iff :
    (∀ (env : ServeEnv η P υ) (s : EdgeHttp1Serve η) (w : ServeWorld P υ) (data : Bytes)
        (p : StatePath) (method : Bytes) (outCap : ℕ), 1024 ≤ outCap →
      FeedsState env s w data p method →
      RequestAtomic w p method (edgeHttp1ServeFeed env s w data outCap)) ∧
    ∀ (st : StateStore), st.WF → ∀ (hub : Option EdgeWsHub) (alloc : ℕ → Bool) (json : Bytes),
      NotifyAtomic st hub json (edgeNotifyApply st hub alloc json) ↔ ¬Redirected st json :=
  ⟨fun _ _ _ _ _ _ _ hcap hfeed => feed_atomic hcap hfeed, fun _ hwf => notifyAtomic_iff hwf⟩

theorem stateWrites_atomic_door :
    RequestAtomic (storeWorld smallStore) ⟨bytes "net.core", [], [], true⟩ (bytes "GET")
      (edgeHttp1ServeFeed (getEnv listPath) freshServe (storeWorld smallStore) [71] 4096) ∧
    NotifyAtomic smallStore none
      (notifyPayload (bytes "net.core") (bytes "door") (bytes "put") (bytes "1") (bytes "r1"))
      (edgeNotifyApply smallStore none (fun _ => true)
        (notifyPayload (bytes "net.core") (bytes "door") (bytes "put") (bytes "1") (bytes "r1"))) := by
  constructor
  · refine stateWrites_atomic_iff.1 _ _ _ _ _ _ 4096 (by decide) fun s' w' h => ?_
    rw [feedRequest_list] at h
    obtain ⟨rfl, -⟩ := Prod.mk.inj (Option.some.inj h)
    exact ⟨stateGet_list.path, rfl⟩
  · exact ((stateWrites_atomic_iff (η := Unit) (P := Unit) (υ := Unit)).2 _
      (edgeStateCreateWithConfig_fresh _).1 none (fun _ => true) _).mpr
      (not_redirected_of_found (show _ = some (bytes "net.core") by decide +kernel)
        (show _ = some (bytes "door") by decide +kernel) (by decide +kernel))

end Edgehost
