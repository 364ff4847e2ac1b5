import Edgehost.Host.PluginHost

/-!
# What a dispatch leaves in the pending table

The part of the host that decides about an upstream request is small: the table, the dispatch that is
under way, whether it has started a request, and the id to mint. `DispatchState` is that part, and
`apiAnswer_effect` says once what any call of the host API does to it.

* `run_effect` is the whole `on_http`: nothing was accepted and the table is as before, or exactly
  one request was accepted and the table has its entry.
* `dispatchConsistent_iff` says exactly when a dispatch leaves an entry for its inbound slot if and
  only if it returns PENDING. The plugin that starts an upstream request and then answers at once
  leaves the entry behind, and the slot refuses every later dispatch.
-/

namespace Edgehost

variable {P : Type*} {υ ρ : Type*}

/-! ## The state that `http_client_request` decides by -/

/-- The members of the host that say whether a request is accepted and under which id. -/
structure DispatchState (P : Type*) where
  pending : EdgePendingTable P
  activePlugin : Option P
  activeInboundSlot : UInt32
  activeInOnHttp : Bool
  clientReqStarted : Bool
  nextOutboundId : UInt64

def EdgePluginHost.dispatchState (h : EdgePluginHost P) : DispatchState P where
  pending := h.pending
  activePlugin := h.activePlugin
  activeInboundSlot := h.activeInboundSlot
  activeInOnHttp := h.activeInOnHttp
  clientReqStarted := h.clientReqStarted
  nextOutboundId := h.nextOutboundId

/-- The id that the next request gets. -/
def DispatchState.mintedId (s : DispatchState P) : UInt64 :=
  if s.nextOutboundId = 0 then s.nextOutboundId + 1 else s.nextOutboundId

theorem DispatchState.mintedId_ne_zero (s : DispatchState P) : s.mintedId ≠ 0 := by
  rw [mintedId]
  split
  case isTrue h => rw [h]; decide
  case isFalse h => exact h

/-- Whether `store_last_req` can copy a request: it names a method and a URL, and its body fits the
buffer or the buffer can grow. -/
def Storable (h : EdgePluginHost P) (req : EdgeHttpClientReq) (alloc : Bool) : Prop :=
  req.method.isSome ∧ req.url.isSome ∧
    (req.bodyLen = 0 ∨ req.body = none ∨ req.bodyLen ≤ h.lastBodyCap ∨ alloc = true)

instance (h : EdgePluginHost P) (req : EdgeHttpClientReq) (alloc : Bool) :
    Decidable (Storable h req alloc) :=
  inferInstanceAs (Decidable (_ ∧ _ ∧ _))

/-- Whether the host accepts an API call as an upstream request. -/
def Acceptable (h : EdgePluginHost P) : ApiCall → Prop
  | .httpClientRequest (some req) true alloc =>
    h.activePlugin.isSome ∧ h.activeInOnHttp = true ∧ h.clientReqStarted = false ∧
      Storable h req alloc ∧ h.pending.Accepts h.activeInboundSlot (mintedId h)
  | _ => False

instance (h : EdgePluginHost P) : DecidablePred (Acceptable h) := fun q => by
  unfold Acceptable
  split <;> infer_instance

@[simp] theorem storeTexts_dispatchState (h : EdgePluginHost P) (method url : Bytes)
    (req : EdgeHttpClientReq) : (storeTexts h method url req).dispatchState = h.dispatchState := rfl

@[simp] theorem storeBody_dispatchState (h : EdgePluginHost P) (req : EdgeHttpClientReq) :
    (storeBody h req).dispatchState = h.dispatchState := by
  unfold storeBody
  split <;> rfl

@[simp] theorem storeHeaders_dispatchState (h : EdgePluginHost P) (req : EdgeHttpClientReq) :
    (storeHeaders h req).dispatchState = h.dispatchState := rfl

@[simp] theorem viewLastReq_dispatchState (h : EdgePluginHost P) (req : EdgeHttpClientReq) :
    (viewLastReq h req).dispatchState = h.dispatchState := rfl

/-- Copying a request touches none of the members that decide about it. -/
theorem storeLastReq_dispatchState (h : EdgePluginHost P) (req : EdgeHttpClientReq) (alloc : Bool) :
    (storeLastReq h req alloc).1.dispatchState = h.dispatchState := by
  unfold storeLastReq
  split
  · simp only
    split <;> simp
  · rfl

/-- A request is copied exactly when it is storable. -/
theorem storeLastReq_status (h : EdgePluginHost P) (req : EdgeHttpClientReq) (alloc : Bool) :
    (storeLastReq h req alloc).2 = if Storable h req alloc then 0 else -1 := by
  have hbody : (req.storedBody.isSome ∧ req.bodyLen > h.lastBodyCap ∧ alloc = false) ↔
      ¬ (req.bodyLen = 0 ∨ req.body = none ∨ req.bodyLen ≤ h.lastBodyCap ∨ alloc = true) := by
    rw [EdgeHttpClientReq.storedBody]
    cases req.body <;> cases alloc <;> by_cases hlen : req.bodyLen = 0 <;>
      simp [hlen, Nat.pos_iff_ne_zero]
  by_cases hs : Storable h req alloc
  · rw [if_pos hs]
    obtain ⟨hmethod, hurl, hfits⟩ := hs
    obtain ⟨method, hm⟩ := Option.isSome_iff_exists.mp hmethod
    obtain ⟨url, hu⟩ := Option.isSome_iff_exists.mp hurl
    have hno : ¬ (req.storedBody.isSome ∧ req.bodyLen > (storeTexts h method url req).lastBodyCap ∧
        alloc = false) := mt hbody.mp (not_not_intro hfits)
    simp only [storeLastReq, hm, hu]
    rw [if_neg hno]
  · rw [if_neg hs]
    unfold storeLastReq
    split
    case h_1 method url hm hu =>
      have hno : req.storedBody.isSome ∧ req.bodyLen > (storeTexts h method url req).lastBodyCap ∧
          alloc = false := hbody.mpr fun hfits => hs ⟨by simp [hm], by simp [hu], hfits⟩
      simp only
      rw [if_pos hno]
    case h_2 => rfl

/-! ## One call of the host API -/

/-- The state after a request of plugin `p` was accepted. -/
def DispatchState.accept (s : DispatchState P) (req : EdgeHttpClientReq) (p : P) :
    DispatchState P :=
  { s with
    pending := (edgePendingInsert s.pending s.activeInboundSlot s.mintedId (some p) req.userTag
      req.timeoutMs 0 none).1
    clientReqStarted := true
    nextOutboundId := s.mintedId + 1 }

/-- What a call of the host API does to the state that decides about upstream requests: nothing, a
refusal that only used up an id, or the acceptance of one request. -/
inductive ApiEffect (s : DispatchState P) (q : ApiCall) : DispatchState P → ApiReply → Prop
  | none (r : ApiReply) (hr : ∀ id, r ≠ .accepted id) : ApiEffect s q s r
  | mintedOnly (hon : s.activeInOnHttp = true) (hfirst : s.clientReqStarted = false)
      (hfull : edgePendingFull s.pending = false)
      (hfree : edgePendingFindInbound s.pending s.activeInboundSlot = Option.none)
      (hrefused : ¬ s.pending.Accepts s.activeInboundSlot s.mintedId) :
      ApiEffect s q { s with nextOutboundId := s.mintedId + 1 } (.status (-1))
  | accepted (req : EdgeHttpClientReq) (p : P) (hp : s.activePlugin = some p)
      (hon : s.activeInOnHttp = true) (hfirst : s.clientReqStarted = false)
      (hacc : s.pending.Accepts s.activeInboundSlot s.mintedId) :
      ApiEffect s q (s.accept req p) (.accepted s.mintedId)

/-- What one call does, and when it is an acceptance. -/
structure CallEffect (h : EdgePluginHost P) (q : ApiCall) : Prop where
  effect : ApiEffect h.dispatchState q (apiAnswer h q).1.dispatchState (apiAnswer h q).2
  accepted_iff : (∃ id, (apiAnswer h q).2 = .accepted id) ↔ Acceptable h q

/-- An answer that leaves the deciding state alone and is no acceptance. -/
private theorem CallEffect.idle {h : EdgePluginHost P} {q : ApiCall} (h' : EdgePluginHost P)
    (r : ApiReply)
    (heq : apiAnswer h q = (h', r)) (hs : h'.dispatchState = h.dispatchState)
    (hr : ∀ id, r ≠ .accepted id) (hn : ¬ Acceptable h q) : CallEffect h q where
  effect := by
    rw [heq]
    show ApiEffect _ _ h'.dispatchState r
    rw [hs]
    exact .none r hr
  accepted_iff := by
    rw [heq]
    exact ⟨fun ⟨id, hid⟩ => absurd hid (hr id), fun hacc => absurd hacc hn⟩

private theorem status_ne_accepted (c : ℤ) (id : UInt64) : ApiReply.status c ≠ .accepted id := by
  simp

private theorem accept_eq {h : EdgePluginHost P} {req : EdgeHttpClientReq} {p : P}
    {t : EdgePendingTable P} {rc : ℤ}
    (hins : edgePendingInsert h.pending h.activeInboundSlot (mintedId h) (some p) req.userTag
      req.timeoutMs 0 none = (t, rc)) :
    h.dispatchState.accept req p =
      { pending := t
        activePlugin := h.activePlugin
        activeInboundSlot := h.activeInboundSlot
        activeInOnHttp := h.activeInOnHttp
        clientReqStarted := true
        nextOutboundId := mintedId h + 1 } := by
  show DispatchState.mk (edgePendingInsert h.pending h.activeInboundSlot (mintedId h) (some p)
    req.userTag req.timeoutMs 0 none).1 _ _ _ _ _ = _
  rw [hins]
  rfl

/-- Where `http_client_request` has copied the request, the table decides. -/
private theorem CallEffect.stored {h : EdgePluginHost P} {req : EdgeHttpClientReq} {p : P}
    {alloc : Bool} (hp : h.activePlugin = some p) (hon : h.activeInOnHttp = true)
    (hfirst : h.clientReqStarted = false) (hfull : edgePendingFull h.pending = false)
    (hfree : edgePendingFindInbound h.pending h.activeInboundSlot = none)
    (hs : Storable h req alloc) : CallEffect h (.httpClientRequest (some req) true alloc) := by
  suffices hboth : ApiEffect h.dispatchState (.httpClientRequest (some req) true alloc)
        (apiHttpClientRequest h (some req) true alloc).1.dispatchState
        (apiHttpClientRequest h (some req) true alloc).2 ∧
      ((∃ id, (apiHttpClientRequest h (some req) true alloc).2 = .accepted id) ↔
        h.pending.Accepts h.activeInboundSlot (mintedId h)) by
    refine ⟨hboth.1, hboth.2.trans ?_⟩
    simp [Acceptable, hp, hon, hfirst, hs]
  have hrc : (storeLastReq h req alloc).2 = 0 := by rw [storeLastReq_status, if_pos hs]
  obtain ⟨h₁, hh₁⟩ : ∃ h₁, storeLastReq h req alloc = (h₁, 0) := ⟨_, Prod.ext rfl hrc⟩
  have hcopy : h₁.dispatchState = h.dispatchState := by
    rw [← storeLastReq_dispatchState h req alloc, hh₁]
  simp only [EdgePluginHost.dispatchState, DispatchState.mk.injEq] at hcopy
  obtain ⟨hpend, hplug, hslot, hactive, hstarted, hnext⟩ := hcopy
  have hid : mintedId h₁ = mintedId h := by simp only [mintedId, hnext]
  simp only [apiHttpClientRequest, hp, hon, hfirst, hfull, hfree, hh₁, Option.isSome_none, Bool.not_true,
    Bool.false_eq_true, if_false, ne_eq, not_true_eq_false, hpend, hslot, hid]
  rcases h.pending.insert_cases h.activeInboundSlot (mintedId h) p req.userTag req.timeoutMs 0 none
    with ⟨hacc, i, old, -, -, heq⟩ | ⟨hacc, heq⟩
  · have heff := ApiEffect.accepted (s := h.dispatchState)
      (q := .httpClientRequest (some req) true alloc) req p hp hon hfirst hacc
    rw [accept_eq heq] at heff
    simp only [heq, not_true_eq_false, if_false, EdgePluginHost.dispatchState, hplug, hactive]
    exact ⟨heff, fun _ => hacc, fun _ => ⟨_, rfl⟩⟩
  · have heff := ApiEffect.mintedOnly (s := h.dispatchState)
      (q := .httpClientRequest (some req) true alloc) hon hfirst hfull hfree hacc
    simp only [EdgePluginHost.dispatchState, heq, hplug, hactive, hstarted] at heff ⊢
    exact ⟨heff, fun ⟨id, hid⟩ => by simp at hid, fun h => absurd h hacc⟩

/-- The guards of `http_client_request`, in the order in which the source checks them. -/
private theorem apiHttpClientRequest_effect (h : EdgePluginHost P) (req : Option EdgeHttpClientReq)
    (outId alloc : Bool) : CallEffect h (.httpClientRequest req outId alloc) := by
  cases req with
  | none => exact .idle _ _ rfl rfl (status_ne_accepted _) (by simp [Acceptable])
  | some req =>
    cases hp : h.activePlugin with
    | none =>
      refine .idle h (.status (-1)) ?_ rfl (status_ne_accepted _) ?_
      · simp [apiAnswer, apiHttpClientRequest, hp]
      · cases outId <;> simp [Acceptable, hp]
    | some p =>
      cases outId with
      | false =>
        refine .idle h (.status (-1)) ?_ rfl (status_ne_accepted _) (by simp [Acceptable])
        simp [apiAnswer, apiHttpClientRequest, hp]
      | true =>
        have refuse : apiAnswer h (.httpClientRequest (some req) true alloc) = (h, .status (-1)) →
            ¬ Acceptable h (.httpClientRequest (some req) true alloc) →
            CallEffect h (.httpClientRequest (some req) true alloc) := fun heq hn =>
          .idle _ _ heq rfl (status_ne_accepted _) hn
        by_cases hon : h.activeInOnHttp = true
        · by_cases hfirst : h.clientReqStarted = true
          · exact refuse (by simp [apiAnswer, apiHttpClientRequest, hp, hon, hfirst])
              (by simp [Acceptable, hfirst])
          · by_cases hfull : edgePendingFull h.pending = true
            · exact refuse (by simp [apiAnswer, apiHttpClientRequest, hp, hon, hfirst, hfull])
                (by simp [Acceptable, EdgePendingTable.Accepts, hfull])
            · cases hfree : edgePendingFindInbound h.pending h.activeInboundSlot with
              | some e =>
                refine refuse (by simp [apiAnswer, apiHttpClientRequest, hp, hon, hfirst, hfull, hfree])
                  ?_
                rintro ⟨-, -, -, -, -, -, hnone, -⟩
                rw [← SlotView.locate_eq_none] at hnone
                exact absurd (hfree.symm.trans hnone) (by simp)
              | none =>
                by_cases hs : Storable h req alloc
                · exact .stored hp hon (by simpa using hfirst) (by simpa using hfull) hfree hs
                · have hrc : (storeLastReq h req alloc).2 = -1 := by
                    rw [storeLastReq_status, if_neg hs]
                  refine .idle (storeLastReq h req alloc).1 (.status (-1)) ?_
                    (storeLastReq_dispatchState h req alloc) (status_ne_accepted _)
                    (by simp [Acceptable, hs])
                  simp [apiAnswer, apiHttpClientRequest, hp, hon, hfirst, hfull, hfree, hrc]
        · exact refuse (by simp [apiAnswer, apiHttpClientRequest, hp, hon]) (by simp [Acceptable, hon])

/-- **One call of the host API** has the effects above, and is an acceptance exactly when the call is
acceptable. -/
theorem apiAnswer_effect (h : EdgePluginHost P) (q : ApiCall) : CallEffect h q := by
  cases q with
  | stateGet ns key out inoutLen =>
    refine .idle _ _ rfl rfl (fun id => ?_) (by simp [Acceptable])
    unfold apiStateGet
    split
    · split <;> simp
    · simp
  | statePut ns key value =>
    refine .idle _ _ rfl ?_ (status_ne_accepted _) (by simp [Acceptable])
    unfold apiStatePut
    split
    · split <;> rfl
    · rfl
  | emitWsBroadcast topic json =>
    exact .idle _ _ rfl rfl (status_ne_accepted _) (by simp [Acceptable])
  | log level fmt => exact .idle _ _ rfl rfl (status_ne_accepted _) (by simp [Acceptable])
  | scheduleTimer delayMs => exact .idle _ _ rfl rfl (status_ne_accepted _) (by simp [Acceptable])
  | cancelTimer timerId => exact .idle _ _ rfl rfl (status_ne_accepted _) (by simp [Acceptable])
  | httpClientRequest req outId alloc => exact apiHttpClientRequest_effect h req outId alloc

/-! ## A whole callback -/

/-- The id in a reply. -/
def ApiReply.acceptedId : ApiReply → Option UInt64
  | .accepted id => some id
  | _ => none

/-- The ids that the host API hands out while a callback runs. -/
def acceptedIds (c : Client ApiCall ApiReply ρ) (h : EdgePluginHost P) : List UInt64 :=
  (c.asked apiAnswer h).filterMap fun x => (apiAnswer x.1 x.2).2.acceptedId

/-- The table is well formed and no entry has the id that is next: an id is then only minted for a
request that is accepted. -/
structure DispatchState.Mintable (s : DispatchState P) : Prop where
  wellFormed : s.pending.WellFormed
  fresh : s.pending.outbound s.mintedId = none

/-- What a callback does to the state that decides about upstream requests, and the ids it was
given. -/
inductive RunEffect (s : DispatchState P) : DispatchState P → List UInt64 → Prop
  | quiet (next : UInt64) (hnext : s.Mintable → next = s.nextOutboundId) :
      RunEffect s { s with nextOutboundId := next } []
  | accepted (next : UInt64) (hnext : s.Mintable → next = s.nextOutboundId) (req : EdgeHttpClientReq)
      (p : P) (hp : s.activePlugin = some p)
      (hacc : s.pending.Accepts s.activeInboundSlot
        { s with nextOutboundId := next : DispatchState P }.mintedId) :
      RunEffect s ({ s with nextOutboundId := next : DispatchState P }.accept req p)
        [{ s with nextOutboundId := next : DispatchState P }.mintedId]

theorem acceptedIds_ask (q : ApiCall) (k : ApiReply → Client ApiCall ApiReply ρ)
    (h : EdgePluginHost P) :
    acceptedIds (.ask q k) h = (apiAnswer h q).2.acceptedId.toList ++
      acceptedIds (k (apiAnswer h q).2) (apiAnswer h q).1 := by
  simp only [acceptedIds, Client.asked, List.filterMap_cons]
  cases (apiAnswer h q).2.acceptedId <;> rfl

theorem acceptedId_eq_none {r : ApiReply} (hr : ∀ id, r ≠ .accepted id) : r.acceptedId = none := by
  cases r with
  | accepted id => exact absurd rfl (hr id)
  | status code => rfl
  | got out len => rfl

/-- Outside `on_http`, and after a request was accepted, calls change nothing. -/
theorem run_settled (c : Client ApiCall ApiReply ρ) (h : EdgePluginHost P)
    (hno : h.activeInOnHttp = false ∨ h.clientReqStarted = true) :
    (c.run apiAnswer h).1.dispatchState = h.dispatchState ∧ acceptedIds c h = [] := by
  induction c generalizing h with
  | ret r => exact ⟨rfl, rfl⟩
  | ask q k ih =>
    have hclosed : ¬ (h.dispatchState.activeInOnHttp = true ∧
        h.dispatchState.clientReqStarted = false) := by
      show ¬ (h.activeInOnHttp = true ∧ h.clientReqStarted = false)
      rcases hno with hno | hno <;> simp [hno]
    obtain ⟨hsame, hnone⟩ : (apiAnswer h q).1.dispatchState = h.dispatchState ∧
        (apiAnswer h q).2.acceptedId = none := by
      have heff := (apiAnswer_effect h q).effect
      generalize (apiAnswer h q).1.dispatchState = s', (apiAnswer h q).2 = r at heff
      cases heff with
      | none r hr => exact ⟨rfl, acceptedId_eq_none hr⟩
      | mintedOnly hon h₀ => exact absurd ⟨hon, h₀⟩ hclosed
      | accepted req p hp hon h₀ => exact absurd ⟨hon, h₀⟩ hclosed
    have hno' : (apiAnswer h q).1.activeInOnHttp = false ∨
        (apiAnswer h q).1.clientReqStarted = true :=
      hno.imp (congrArg DispatchState.activeInOnHttp hsame).trans
        (congrArg DispatchState.clientReqStarted hsame).trans
    have hnext := ih (apiAnswer h q).2 (apiAnswer h q).1 hno'
    refine ⟨hnext.1.trans hsame, ?_⟩
    rw [acceptedIds_ask, hnone, hnext.2]
    rfl

/-- The ids handed out while a callback runs, as the host writes them down. -/
def handedOutEvents (c : Client ApiCall ApiReply ρ) (h : EdgePluginHost P) : List (HostEvent P) :=
  (acceptedIds c h).filterMap fun id =>
    h.activePlugin.map fun p => .handedOut id p h.activeInboundSlot

/-- Copying a request leaves the log alone. -/
theorem storeLastReq_log (h : EdgePluginHost P) (req : EdgeHttpClientReq) (alloc : Bool) :
    (storeLastReq h req alloc).1.log = h.log := by
  have hbody : ∀ h' : EdgePluginHost P, (storeBody h' req).log = h'.log := fun h' => by
    unfold storeBody
    split <;> rfl
  unfold storeLastReq
  split
  · simp only
    split_ifs
    · rfl
    · exact hbody _
  · rfl

/-- A call writes down the id that it hands out, and nothing else. -/
theorem apiAnswer_log (h : EdgePluginHost P) (q : ApiCall) :
    (apiAnswer h q).1.log = h.log ++ (apiAnswer h q).2.acceptedId.toList.filterMap fun id =>
      h.activePlugin.map fun p => .handedOut id p h.activeInboundSlot := by
  cases q with
  | stateGet ns key out inoutLen =>
    simp only [apiAnswer, apiStateGet]
    split
    · split <;> exact (List.append_nil _).symm
    · exact (List.append_nil _).symm
  | statePut ns key value =>
    simp only [apiAnswer, apiStatePut]
    split
    · split <;> exact (List.append_nil _).symm
    · exact (List.append_nil _).symm
  | httpClientRequest req outId alloc =>
    simp only [apiAnswer, apiHttpClientRequest]
    split
    case h_2 => exact (List.append_nil _).symm
    case h_1 req plugin hplugin =>
      have hcopy := storeLastReq_log h req alloc
      have hslot := congrArg DispatchState.activeInboundSlot (storeLastReq_dispatchState h req alloc)
      have hslot : (storeLastReq h req alloc).1.activeInboundSlot = h.activeInboundSlot := hslot
      split_ifs
      -- Only the last branch hands an id out.
      all_goals simp [ApiReply.acceptedId, EdgePluginHost.note, hplugin, hcopy, hslot]
  | _ => exact (List.append_nil _).symm

/-- **What a callback leaves in the log**: the ids that it was given. -/
theorem run_log (c : Client ApiCall ApiReply ρ) (h : EdgePluginHost P) :
    (c.run apiAnswer h).1.log = h.log ++ handedOutEvents c h := by
  induction c generalizing h with
  | ret r => exact (List.append_nil _).symm
  | ask q k ih =>
    have heff := (apiAnswer_effect h q).effect
    obtain ⟨hplugin, hslot⟩ : (apiAnswer h q).1.activePlugin = h.activePlugin ∧
        (apiAnswer h q).1.activeInboundSlot = h.activeInboundSlot := by
      generalize hs : (apiAnswer h q).1.dispatchState = s', (apiAnswer h q).2 = r at heff
      have hplugin : (apiAnswer h q).1.activePlugin = s'.activePlugin :=
        congrArg DispatchState.activePlugin hs
      have hslot : (apiAnswer h q).1.activeInboundSlot = s'.activeInboundSlot :=
        congrArg DispatchState.activeInboundSlot hs
      rw [hplugin, hslot]
      cases heff <;> exact ⟨rfl, rfl⟩
    rw [Client.run, ih, apiAnswer_log, handedOutEvents, handedOutEvents, hplugin, hslot,
      acceptedIds_ask, List.filterMap_append, List.append_assoc]

/-- Where an id can be minted and the slot is free, a request that passes the guards is accepted. -/
private theorem DispatchState.Mintable.accepts {s : DispatchState P} (hs : s.Mintable)
    (hfull : edgePendingFull s.pending = false)
    (hfree : edgePendingFindInbound s.pending s.activeInboundSlot = none) :
    s.pending.Accepts s.activeInboundSlot s.mintedId := by
  refine hs.wellFormed.accepts_iff.mpr ⟨s.mintedId_ne_zero, hfull, ?_, hs.fresh⟩
  exact SlotView.lookup_eq_none_iff.mpr (SlotView.locate_eq_none.mp hfree)

/-- An effect of the rest of a callback, after its first call only used up an id. -/
private theorem RunEffect.after_minted {s s' : DispatchState P} {ids : List UInt64} {next : UInt64}
    (hnext : s.Mintable → next = s.nextOutboundId)
    (h : RunEffect { s with nextOutboundId := next } s' ids) : RunEffect s s' ids := by
  have hback : ∀ next', ({ s with nextOutboundId := next : DispatchState P }.Mintable →
      next' = next) → s.Mintable → next' = s.nextOutboundId := fun next' himp hs => by
    obtain rfl := hnext hs
    exact himp hs
  cases h with
  | quiet next' h' => exact .quiet next' (hback next' h')
  | accepted next' h' req p hp hacc => exact .accepted next' (hback next' h') req p hp hacc

/-- **A whole callback.** At most one request is accepted, its entry is then the only change of the
table, and without it the table stays as it was. -/
theorem run_effect (c : Client ApiCall ApiReply ρ) (h : EdgePluginHost P)
    (hfirst : h.clientReqStarted = false) :
    RunEffect h.dispatchState (c.run apiAnswer h).1.dispatchState (acceptedIds c h) := by
  induction c generalizing h with
  | ret r => exact .quiet _ fun _ => rfl
  | ask q k ih =>
    have heff := (apiAnswer_effect h q).effect
    show RunEffect _ ((k (apiAnswer h q).2).run apiAnswer (apiAnswer h q).1).1.dispatchState _
    rw [acceptedIds_ask]
    generalize hs' : (apiAnswer h q).1.dispatchState = s', hr : (apiAnswer h q).2 = r at heff
    have hst : (apiAnswer h q).1.clientReqStarted = s'.clientReqStarted := by rw [← hs']; rfl
    cases heff with
    | none r hno =>
      have hrest := ih r (apiAnswer h q).1 (hst.trans hfirst)
      rw [hs'] at hrest
      rw [acceptedId_eq_none hno]
      exact hrest
    | mintedOnly hon h₀ hfull hfree hrefused =>
      have hrest := ih (.status (-1)) (apiAnswer h q).1 (hst.trans hfirst)
      rw [hs'] at hrest
      exact hrest.after_minted fun hs => absurd (hs.accepts hfull hfree) hrefused
    | accepted req p hp hon h₀ hacc =>
      obtain ⟨hsame, hnone⟩ := run_settled (k (.accepted h.dispatchState.mintedId)) (apiAnswer h q).1
        (Or.inr hst)
      rw [hsame, hs', hnone]
      exact .accepted _ (fun _ => rfl) req p hp hacc

/-- The table after a callback: untouched, or with an entry for the inbound slot. -/
theorem run_pending (c : Client ApiCall ApiReply ρ) (h : EdgePluginHost P)
    (hfirst : h.clientReqStarted = false) :
    (acceptedIds c h = [] ∧ (c.run apiAnswer h).1.clientReqStarted = false ∧
      (c.run apiAnswer h).1.pending = h.pending) ∨
    (acceptedIds c h ≠ [] ∧ (c.run apiAnswer h).1.clientReqStarted = true ∧
      (edgePendingFindInbound (c.run apiAnswer h).1.pending h.activeInboundSlot).isSome) := by
  have heff := run_effect c h hfirst
  generalize hs : (c.run apiAnswer h).1.dispatchState = s, acceptedIds c h = ids at heff
  have hpend : (c.run apiAnswer h).1.pending = s.pending := by rw [← hs]; rfl
  have hstarted : (c.run apiAnswer h).1.clientReqStarted = s.clientReqStarted := by rw [← hs]; rfl
  rw [hpend, hstarted]
  cases heff with
  | quiet next hnext => exact Or.inl ⟨rfl, hfirst, rfl⟩
  | accepted next hnext req p hp hacc =>
    exact Or.inr ⟨List.cons_ne_nil _ _, rfl, EdgePendingTable.findInbound_insert hacc p _ _ _ _⟩

/-- The host accepts a request exactly when one of the calls was acceptable where it was made. -/
theorem acceptedIds_eq_nil_iff (c : Client ApiCall ApiReply ρ) (h : EdgePluginHost P) :
    acceptedIds c h = [] ↔ ∀ x ∈ c.asked apiAnswer h, ¬ Acceptable x.1 x.2 := by
  rw [acceptedIds, List.filterMap_eq_nil_iff]
  refine forall₂_congr fun x _ => ?_
  rw [← (apiAnswer_effect x.1 x.2).accepted_iff]
  cases (apiAnswer x.1 x.2).2 <;> simp [ApiReply.acceptedId]

/-! ## A whole dispatch -/

/-- The plugin behind a pointer and its `on_http`, where it is an HTTP plugin. -/
def httpHandler (vtbl : P → Option (EdgePluginVtbl υ)) (plugin : Option P) :
    Option (P × (EdgeHttpReq → EdgeHttpRes → υ → Client ApiCall ApiReply (PluginResult υ))) :=
  plugin.bind fun p => (vtbl p).bind fun vt =>
    if vt.kind = .http then vt.onHttp.map fun onHttp => (p, onHttp) else none

/-- The status that a dispatch returns for the one `on_http` returned. -/
def dispatchStatus (status : ℤ) (started : Bool) : ℤ :=
  if status = EDGE_PLUGIN_PENDING then if started then EDGE_PLUGIN_PENDING else EDGE_PLUGIN_ERR
  else if status = EDGE_PLUGIN_OK then EDGE_PLUGIN_OK
  else EDGE_PLUGIN_ERR

variable {vtbl : P → Option (EdgePluginVtbl υ)} {h : EdgePluginHost P} {mem : υ} {plugin : Option P}
  {req : EdgeHttpReq} {res : EdgeHttpRes}

/-- A dispatch that reaches no `on_http` fails and leaves the host as it is. -/
theorem dispatch_refused (vtbl : P → Option (EdgePluginVtbl υ)) (h : EdgePluginHost P) (mem : υ)
    (plugin : Option P) (req : EdgeHttpReq) (res : EdgeHttpRes)
    (hno : httpHandler vtbl plugin = none ∨ (edgePendingFindInbound h.pending req.inboundSlot).isSome) :
    (edgePluginHostDispatchHttp vtbl h mem plugin req res).host = h ∧
      (edgePluginHostDispatchHttp vtbl h mem plugin req res).mem = mem ∧
      (edgePluginHostDispatchHttp vtbl h mem plugin req res).status = EDGE_PLUGIN_ERR := by
  cases plugin with
  | none => exact ⟨rfl, rfl, rfl⟩
  | some p =>
    cases hvt : vtbl p with
    | none => simp [edgePluginHostDispatchHttp, hvt]
    | some vt =>
      by_cases hkind : vt.kind = .http
      · cases hon : vt.onHttp with
        | none => simp [edgePluginHostDispatchHttp, hvt, hkind, hon]
        | some onHttp =>
          have hfound := hno.resolve_left (by simp [httpHandler, hvt, hkind, hon])
          simp [edgePluginHostDispatchHttp, hvt, hkind, hon, hfound]
      · simp [edgePluginHostDispatchHttp, hvt, hkind]

/-- A dispatch that reaches `on_http` runs it for the inbound slot. -/
theorem dispatch_ran {p : P}
    {onHttp : EdgeHttpReq → EdgeHttpRes → υ → Client ApiCall ApiReply (PluginResult υ)}
    (hh : httpHandler vtbl plugin = some (p, onHttp))
    (hfree : edgePendingFindInbound h.pending req.inboundSlot = none) :
    edgePluginHostDispatchHttp vtbl h mem plugin req res =
      afterOnHttp (leaveOnHttp
          ((onHttp req res mem).run apiAnswer (enterOnHttp h p req.inboundSlot)).1 req.inboundSlot)
        ((onHttp req res mem).run apiAnswer (enterOnHttp h p req.inboundSlot)).2 req.inboundSlot := by
  simp only [httpHandler, Option.bind_eq_some_iff, Option.ite_none_right_eq_some,
    Option.map_eq_some_iff,
    Prod.mk.injEq] at hh
  obtain ⟨p', rfl, vt, hvt, hkind, on', hon, rfl, rfl⟩ := hh
  simp [edgePluginHostDispatchHttp, hvt, hkind, hon, hfree]

/-- What a dispatch does after `on_http`: the table stays as `on_http` left it, unless a plugin said
PENDING without a request, and then only an entry of the inbound slot could go. -/
theorem afterOnHttp_spec (h : EdgePluginHost P) (st : PluginResult υ) (slot : UInt32) :
    (afterOnHttp h st slot).status = dispatchStatus st.status h.clientReqStarted ∧
      (afterOnHttp h st slot).mem = st.mem ∧
      (edgePendingFindInbound h.pending slot = none ∨ h.clientReqStarted = true →
        (afterOnHttp h st slot).host = h) := by
  unfold afterOnHttp dispatchStatus
  split
  · by_cases hstarted : h.clientReqStarted = true
    · simp [hstarted]
    · rw [if_pos (by simp [hstarted]), if_neg hstarted]
      refine ⟨rfl, rfl, fun hfree => ?_⟩
      have hkeep : releaseInbound h slot = (h, -1) := by
        rw [releaseInbound, edgePendingReleaseInbound, hfree.resolve_right hstarted, endOf,
          List.append_nil]
      show (releaseInbound h slot).1 = h
      rw [hkeep]
  · split <;> simp

/-- A dispatch leaves an entry for its inbound slot exactly when it returns PENDING, and otherwise
leaves the table as it was. -/
def DispatchConsistent (h : EdgePluginHost P) (slot : UInt32) (r : HostResult P υ) : Prop :=
  ((edgePendingFindInbound r.host.pending slot).isSome ↔ r.status = EDGE_PLUGIN_PENDING) ∧
    (r.status = EDGE_PLUGIN_OK ∨ r.status = EDGE_PLUGIN_ERR → r.host.pending = h.pending)

/-- A callback that returns PENDING, or makes no call that the host accepts as a request. -/
def PendingOrQuiet (c : Client ApiCall ApiReply (PluginResult υ)) (h : EdgePluginHost P) : Prop :=
  (c.run apiAnswer h).2.status = EDGE_PLUGIN_PENDING ∨
    ∀ x ∈ c.asked apiAnswer h, ¬ Acceptable x.1 x.2

/-- A status of a dispatch that has started no request is not PENDING. -/
theorem dispatchStatus_false (st : ℤ) : dispatchStatus st false ≠ EDGE_PLUGIN_PENDING := by
  simp only [dispatchStatus]
  split
  · decide
  · split <;> decide

theorem dispatchStatus_true_eq_pending_iff (st : ℤ) :
    dispatchStatus st true = EDGE_PLUGIN_PENDING ↔ st = EDGE_PLUGIN_PENDING := by
  rw [dispatchStatus]
  split
  case isTrue h => simp [h]
  case isFalse h =>
    refine iff_of_false ?_ h
    split <;> decide

/-- **When a dispatch is consistent.** For a request whose slot waits for nothing, the dispatch
leaves an entry exactly with PENDING, and otherwise no trace, if and only if the plugin either returns
PENDING or has had no request accepted. -/
theorem dispatchConsistent_iff (vtbl : P → Option (EdgePluginVtbl υ)) (h : EdgePluginHost P) (mem : υ)
    (plugin : Option P) (req : EdgeHttpReq) (res : EdgeHttpRes)
    (hfree : edgePendingFindInbound h.pending req.inboundSlot = none) :
    DispatchConsistent h req.inboundSlot
        (edgePluginHostDispatchHttp vtbl h mem plugin req res) ↔
      ∀ p onHttp, httpHandler vtbl plugin = some (p, onHttp) →
        PendingOrQuiet (onHttp req res mem) (enterOnHttp h p req.inboundSlot) := by
  cases hh : httpHandler vtbl plugin with
  | none =>
    obtain ⟨hhost, -, hstatus⟩ := dispatch_refused vtbl h mem plugin req res (Or.inl hh)
    refine iff_of_true ⟨?_, fun _ => by rw [hhost]⟩ (by simp)
    rw [hhost, hstatus, hfree]
    exact iff_of_false (by simp) (by decide)
  | some ph =>
    obtain ⟨p, onHttp⟩ := ph
    have hcond : (∀ p' on', some (p, onHttp) = some (p', on') →
        PendingOrQuiet (on' req res mem) (enterOnHttp h p' req.inboundSlot)) ↔
        PendingOrQuiet (onHttp req res mem) (enterOnHttp h p req.inboundSlot) := by simp
    rw [hcond, dispatch_ran hh hfree, PendingOrQuiet, ← acceptedIds_eq_nil_iff]
    generalize onHttp req res mem = c
    have hspec := afterOnHttp_spec
      (leaveOnHttp (c.run apiAnswer (enterOnHttp h p req.inboundSlot)).1 req.inboundSlot)
      (c.run apiAnswer (enterOnHttp h p req.inboundSlot)).2 req.inboundSlot
    obtain ⟨hstatus, -, hhost⟩ := hspec
    rcases run_pending c (enterOnHttp h p req.inboundSlot) rfl with
      ⟨hnil, hstarted, hpend⟩ | ⟨hids, hstarted, hfound⟩
    · -- Nothing was accepted, and the table is the one before the call.
      have hleft : (leaveOnHttp (c.run apiAnswer (enterOnHttp h p req.inboundSlot)).1
          req.inboundSlot).pending = h.pending := hpend
      have hsame := hhost (Or.inl (by rw [hleft]; exact hfree))
      refine iff_of_true ⟨?_, fun _ => by rw [hsame, hleft]⟩ (Or.inr hnil)
      rw [hsame, hleft, hfree, hstatus]
      refine iff_of_false (by simp) ?_
      show ¬ dispatchStatus _ (c.run apiAnswer (enterOnHttp h p req.inboundSlot)).1.clientReqStarted = _
      rw [hstarted]
      exact dispatchStatus_false _
    · have hsame := hhost (Or.inr hstarted)
      have hin : (edgePendingFindInbound (leaveOnHttp (c.run apiAnswer
          (enterOnHttp h p req.inboundSlot)).1 req.inboundSlot).pending req.inboundSlot).isSome :=
        hfound
      have hst : (afterOnHttp (leaveOnHttp (c.run apiAnswer (enterOnHttp h p req.inboundSlot)).1
          req.inboundSlot) (c.run apiAnswer (enterOnHttp h p req.inboundSlot)).2 req.inboundSlot).status
          = EDGE_PLUGIN_PENDING ↔
          (c.run apiAnswer (enterOnHttp h p req.inboundSlot)).2.status = EDGE_PLUGIN_PENDING := by
        rw [hstatus]
        show dispatchStatus _ (c.run apiAnswer (enterOnHttp h p req.inboundSlot)).1.clientReqStarted
          = _ ↔ _
        rw [hstarted, dispatchStatus_true_eq_pending_iff]
      rw [or_iff_left hids, ← hst, DispatchConsistent, hsame]
      refine ⟨fun hc => hc.1.mp hin, fun hp => ⟨⟨fun _ => hp, fun _ => hin⟩, fun hother => ?_⟩⟩
      rw [hp] at hother
      exact absurd hother (by decide)

/-! ### A plugin that answers although it started a request -/

/-- A plugin that asks for one upstream request and returns `status` whatever the answer. -/
def askThenReturn (status : ℤ) : EdgePluginVtbl Unit where
  kind := .http
  init := none
  onHttp := some fun _ res mem =>
    .ask (.httpClientRequest
      (some
        { method := some (bytes "GET"), url := some (bytes "http://127.0.0.1/"), host := none
          addrOverride := none, hdrNames := [], hdrValues := [], nHeaders := 0, body := none
          bodyLen := 0, timeoutMs := 0, userTag := 0 }) true true)
      fun _ => .ret { status, res, mem }
  onHttpComplete := none

/-- A request on the inbound slot 3. -/
def slotThreeReq : EdgeHttpReq where
  method := bytes "POST"
  path := bytes "/v1/chat"
  query := none
  headers := []
  body := []
  principal := none
  inboundSlot := 3

def emptyRes : EdgeHttpRes where
  status := 0
  reason := []
  contentType := []
  body := none
  bodyLen := 0
  bodyCap := 0

/-- The entry stays behind when the plugin answers OK after its request was accepted. -/
theorem not_dispatchConsistent_answered :
    let h : EdgePluginHost Unit := edgePluginHostCreate 1 none
    edgePendingFindInbound h.pending slotThreeReq.inboundSlot = none ∧
      ¬ DispatchConsistent h slotThreeReq.inboundSlot
        (edgePluginHostDispatchHttp (fun _ => some (askThenReturn EDGE_PLUGIN_OK)) h () (some ())
          slotThreeReq emptyRes) := by
  refine ⟨by decide, fun hc => ?_⟩
  exact absurd (hc.1.mp (by decide)) (by decide)

theorem dispatchConsistent_pending :
    let h : EdgePluginHost Unit := edgePluginHostCreate 1 none
    edgePendingFindInbound h.pending slotThreeReq.inboundSlot = none ∧
      DispatchConsistent h slotThreeReq.inboundSlot
        (edgePluginHostDispatchHttp (fun _ => some (askThenReturn EDGE_PLUGIN_PENDING)) h () (some ())
          slotThreeReq emptyRes) := by
  refine ⟨by decide, (dispatchConsistent_iff _ _ _ _ _ _ (by decide)).mpr fun p onHttp hh => ?_⟩
  obtain rfl : (fun _ _ _ => _) = onHttp := congrArg Prod.snd (Option.some.inj hh)
  exact Or.inl rfl

end Edgehost
