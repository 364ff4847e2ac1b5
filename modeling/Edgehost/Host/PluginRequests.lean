import Edgehost.Host.OpenaiProxy

/-!
# The copy of an upstream request

The host copies a request that it accepts into its own buffers, so that the plugin's temporaries may
go, and executes the copy later. The buffers have fixed sizes, and what does not fit is cut off without
a word.

* `SentRequest.cut_eq_iff`: the copy is the request exactly when every part of it fits.
* `dispatch_carries_iff`: so it is for every request that any `on_http` makes, with the copy as it
  stands when the dispatch is over.
-/

namespace Edgehost

variable {P : Type*} {υ ρ : Type*}

/-! ## What a request says -/

/-- What a request says. An absent host or address is an empty one; in the headers a NULL pointer stays
apart from an empty text, since `build_request` skips a header without a name. -/
@[ext]
structure SentRequest where
  method : Bytes
  url : Bytes
  host : Bytes
  addrOverride : Bytes
  headers : List (Option Bytes × Option Bytes)
  body : Bytes
  timeoutMs : UInt32
  userTag : UInt64
  deriving DecidableEq

/-- A pointer of an array; that of an array that is NULL is NULL. -/
def ptrAt (texts : List (Option Bytes)) (i : ℕ) : Option Bytes := texts[i]?.join

/-- What the host copies from a pointer into a buffer of `cap` bytes. -/
def copiedText (cap : ℕ) (text : Option Bytes) : Bytes := snprintf cap (text.getD [])

def EdgeHttpClientReq.sent (req : EdgeHttpClientReq) : SentRequest where
  method := req.method.getD []
  url := req.url.getD []
  host := req.host.getD []
  addrOverride := req.addrOverride.getD []
  headers := (List.range req.nHeaders).map fun i => (ptrAt req.hdrNames i, ptrAt req.hdrValues i)
  body := (req.storedBody.getD []).take req.bodyLen
  timeoutMs := req.timeoutMs
  userTag := req.userTag

/-- The body pointer of a request points at as many bytes as its length says. -/
def EdgeHttpClientReq.Readable (req : EdgeHttpClientReq) : Prop :=
  ∀ body, req.body = some body → req.bodyLen ≤ body.length

namespace SentRequest

/-- What of a request the buffers of the host hold. -/
def cut (s : SentRequest) : SentRequest :=
  { s with
    method := snprintf 16 s.method
    url := snprintf 512 s.url
    host := snprintf 256 s.host
    addrOverride := snprintf 64 s.addrOverride
    headers := (s.headers.take 8).map fun x => (some (copiedText 64 x.1), some (copiedText 384 x.2)) }

/-- A text is there and has room in a buffer of `cap` bytes. -/
def HasRoom (cap : ℕ) (text : Option Bytes) : Prop := text.any fun t => t.length < cap

instance (cap : ℕ) (text : Option Bytes) : Decidable (HasRoom cap text) :=
  inferInstanceAs (Decidable (_ = _))

/-- Every part of a request has room, and no header has a NULL pointer. -/
def Fits (s : SentRequest) : Prop :=
  s.method.length < 16 ∧ s.url.length < 512 ∧ s.host.length < 256 ∧ s.addrOverride.length < 64 ∧
    s.headers.length ≤ 8 ∧ ∀ x ∈ s.headers, HasRoom 64 x.1 ∧ HasRoom 384 x.2

instance (s : SentRequest) : Decidable s.Fits :=
  inferInstanceAs (Decidable (_ ∧ _ ∧ _ ∧ _ ∧ _ ∧ _))

theorem snprintf_eq_self_iff {cap : ℕ} (hcap : 0 < cap) (text : Bytes) :
    snprintf cap text = text ↔ text.length < cap := by
  rw [snprintf, List.take_eq_self_iff]
  omega

theorem some_copiedText_eq_self_iff {cap : ℕ} (hcap : 0 < cap) (text : Option Bytes) :
    some (copiedText cap text) = text ↔ HasRoom cap text := by
  cases text with
  | none => exact iff_of_false (by simp) (by simp [HasRoom])
  | some t => rw [copiedText, Option.getD_some, Option.some_inj, snprintf_eq_self_iff hcap, HasRoom,
      Option.any_some, decide_eq_true_eq]

theorem cutHeaders_eq_iff (hdrs : List (Option Bytes × Option Bytes)) :
    (hdrs.take 8).map (fun x => (some (copiedText 64 x.1), some (copiedText 384 x.2))) = hdrs ↔
      hdrs.length ≤ 8 ∧ ∀ x ∈ hdrs, HasRoom 64 x.1 ∧ HasRoom 384 x.2 := by
  have hcut : ∀ x : Option Bytes × Option Bytes,
      (some (copiedText 64 x.1), some (copiedText 384 x.2)) = x ↔ HasRoom 64 x.1 ∧ HasRoom 384 x.2 :=
    fun x => by
      rw [Prod.ext_iff, some_copiedText_eq_self_iff (by decide),
        some_copiedText_eq_self_iff (by decide)]
  constructor
  · intro h
    have hlen : hdrs.length ≤ 8 := by
      rw [← h, List.length_map]
      exact List.length_take_le 8 hdrs
    rw [List.take_of_length_le hlen] at h
    have hself := List.map_inj_left.mp (h.trans (List.map_id hdrs).symm)
    exact ⟨hlen, fun x hx => (hcut x).mp (hself x hx)⟩
  · rintro ⟨hlen, hall⟩
    rw [List.take_of_length_le hlen]
    exact (List.map_congr_left fun x hx => (hcut x).mpr (hall x hx)).trans (List.map_id hdrs)

/-- **The copy is the request exactly when every part fits.** -/
theorem cut_eq_iff (s : SentRequest) : s.cut = s ↔ s.Fits := by
  cases s with
  | mk method url host addrOverride headers body timeoutMs userTag =>
    simp only [cut, Fits, SentRequest.mk.injEq, and_true, cutHeaders_eq_iff]
    rw [snprintf_eq_self_iff (by decide), snprintf_eq_self_iff (by decide),
      snprintf_eq_self_iff (by decide), snprintf_eq_self_iff (by decide)]

end SentRequest

/-! ## The copy -/

theorem storedHeaders_eq (req : EdgeHttpClientReq) : req.storedHeaders = min 8 req.nHeaders := by
  unfold EdgeHttpClientReq.storedHeaders
  split_ifs <;> omega

/-- A row of header buffers read back. -/
theorem ptrAt_storeHdrs {cap nh i : ℕ} (hi : i < nh) (src : List (Option Bytes))
    (old : List Bytes) :
    ptrAt (((storeHdrs cap nh src old).take nh).map some) i = some (copiedText cap (ptrAt src i)) := by
  have hrow : (storeHdrs cap nh src old).take nh =
      (List.range nh).map fun i => copiedText cap (ptrAt src i) := by
    rw [storeHdrs, List.take_left' (by rw [List.length_map, List.length_range])]
    rfl
  rw [ptrAt, hrow]
  simp [hi]

/-- A request that could be copied is in the buffers. -/
theorem storeLastReq_eq {h : EdgePluginHost P} {req : EdgeHttpClientReq} {alloc : Bool}
    (hrc : (storeLastReq h req alloc).2 = 0) :
    ∃ method url, req.method = some method ∧ req.url = some url ∧ (storeLastReq h req alloc).1 =
      viewLastReq (storeHeaders (storeBody (storeTexts h method url req) req) req) req := by
  unfold storeLastReq at hrc ⊢
  split at hrc
  case h_2 => cases hrc
  case h_1 method url hmethod hurl =>
    refine ⟨method, url, hmethod, hurl, ?_⟩
    simp only at hrc ⊢
    split_ifs at hrc ⊢
    · cases hrc
    · rfl

/-- A pointer that is NULL for an empty text. -/
theorem getD_ptr (text : Bytes) :
    (if decide (text ≠ []) = true then some text else none).getD [] = text := by
  cases text <;> rfl

theorem storedHeaders_sent (req : EdgeHttpClientReq) (names values : List Bytes) :
    (List.range req.storedHeaders).map (fun i =>
        (ptrAt (((storeHdrs 64 req.storedHeaders req.hdrNames names).take
            req.storedHeaders).map some) i,
          ptrAt (((storeHdrs 384 req.storedHeaders req.hdrValues values).take
            req.storedHeaders).map some) i)) =
      (req.sent.headers.take 8).map fun x =>
        (some (copiedText 64 x.1), some (copiedText 384 x.2)) := by
  rw [EdgeHttpClientReq.sent, ← List.map_take, List.take_range, ← storedHeaders_eq, List.map_map]
  refine List.map_congr_left fun i hi => ?_
  rw [ptrAt_storeHdrs (List.mem_range.mp hi), ptrAt_storeHdrs (List.mem_range.mp hi)]
  rfl

/-- A body that is read back through its pointer and its length. -/
theorem viewed_body (n : ℕ) (buf : Bytes) :
    ((if n > 0 then if decide (n ≠ 0) = true then some (buf.take n) else none else none).getD []).take n
      = buf.take n := by
  cases n with
  | zero => rfl
  | succ n => simp

/-- The body buffer up to its length is the body of the request. -/
theorem storeBody_take (h : EdgePluginHost P) {req : EdgeHttpClientReq} (hread : req.Readable) :
    (storeBody h req).lastBody.take (storeBody h req).lastBodyLen = req.sent.body := by
  cases hstored : req.storedBody with
  | none =>
    have hbuf : storeBody h req = { h with lastBodyLen := 0 } := by simp only [storeBody, hstored]
    rw [hbuf, EdgeHttpClientReq.sent, hstored]
    simp
  | some body =>
    have hbuf : storeBody h req =
        { h with
          lastBody := body.take req.bodyLen ++ h.lastBody.drop req.bodyLen
          lastBodyLen := req.bodyLen
          lastBodyCap := max h.lastBodyCap req.bodyLen } := by simp only [storeBody, hstored]
    have hbody : 0 < req.bodyLen ∧ req.body = some body := by
      rw [EdgeHttpClientReq.storedBody] at hstored
      exact Option.ite_none_right_eq_some.mp hstored
    have hlen : (body.take req.bodyLen).length = req.bodyLen := by
      rw [List.length_take, Nat.min_eq_left (hread body hbody.2)]
    rw [hbuf, EdgeHttpClientReq.sent, hstored]
    exact List.take_left' hlen

/-- The body buffer is written behind the back of the other members. -/
theorem storeBody_other (h : EdgePluginHost P) (req : EdgeHttpClientReq) :
    storeBody h req =
      { h with
        lastBody := (storeBody h req).lastBody
        lastBodyLen := (storeBody h req).lastBodyLen
        lastBodyCap := (storeBody h req).lastBodyCap } := by
  unfold storeBody
  split <;> rfl

/-- **What the host holds of a request that it could copy.** -/
theorem storeLastReq_sent {h : EdgePluginHost P} {req : EdgeHttpClientReq} {alloc : Bool}
    (hrc : (storeLastReq h req alloc).2 = 0) (hread : req.Readable) :
    (edgePluginHostLastClientReq (storeLastReq h req alloc).1).map EdgeHttpClientReq.sent =
      some req.sent.cut := by
  obtain ⟨method, url, hmethod, hurl, heq⟩ := storeLastReq_eq hrc
  have hbody := storeBody_take (storeTexts h method url req) hread
  rw [heq, storeBody_other]
  generalize (storeBody (storeTexts h method url req) req).lastBody = buf,
    (storeBody (storeTexts h method url req) req).lastBodyLen = n,
    (storeBody (storeTexts h method url req) req).lastBodyCap = cap at hbody
  refine congrArg some (SentRequest.ext ?_ ?_ ?_ ?_ ?_ ?_ rfl rfl)
  · exact congrArg (snprintf 16) (congrArg (Option.getD · []) hmethod).symm
  · exact congrArg (snprintf 512) (congrArg (Option.getD · []) hurl).symm
  · exact getD_ptr _
  · exact getD_ptr _
  · exact storedHeaders_sent req _ _
  · exact (viewed_body n buf).trans hbody

/-! ## The copy over a dispatch -/

/-- Outside `on_http`, and after a request was accepted, a call changes the store at most. -/
theorem apiAnswer_settled {h : EdgePluginHost P}
    (hno : h.activeInOnHttp = false ∨ h.clientReqStarted = true) (q : ApiCall) :
    (apiAnswer h q).1 = { h with state := (apiAnswer h q).1.state } := by
  cases q with
  | statePut ns key value =>
    simp only [apiAnswer, apiStatePut]
    split
    · split <;> rfl
    · rfl
  | httpClientRequest req outId alloc =>
    simp only [apiAnswer, apiHttpClientRequest]
    split
    · split_ifs with hout hon hstarted <;> first | rfl | (rcases hno with hno | hno <;> simp_all)
    · rfl
  | _ => rfl

/-- So does all that a callback still calls. -/
theorem run_keeps (c : Client ApiCall ApiReply ρ) {h : EdgePluginHost P}
    (hno : h.activeInOnHttp = false ∨ h.clientReqStarted = true) :
    (c.run apiAnswer h).1 = { h with state := (c.run apiAnswer h).1.state } := by
  induction c generalizing h with
  | ret r => rfl
  | ask q k ih =>
    have hcall := apiAnswer_settled hno q
    have hno' : (apiAnswer h q).1.activeInOnHttp = false ∨
        (apiAnswer h q).1.clientReqStarted = true := by
      rw [hcall]
      exact hno
    have hrest := ih (apiAnswer h q).2 hno'
    rw [Client.run, hrest, hcall]

/-- **What an accepted request leaves**: it was copied, its entry went into the table under the id that was
minted, the id was written down, and nothing else of the host changed. -/
theorem accepted_eq {h : EdgePluginHost P} {req : EdgeHttpClientReq} {outId alloc : Bool} {id : UInt64}
    (hacc : (apiAnswer h (.httpClientRequest (some req) outId alloc)).2 = .accepted id) :
    ∃ plugin, h.activePlugin = some plugin ∧ (storeLastReq h req alloc).2 = 0 ∧
      id = mintedId (storeLastReq h req alloc).1 ∧ ∃ pending,
        edgePendingInsert (storeLastReq h req alloc).1.pending (storeLastReq h req alloc).1.activeInboundSlot
          id (some plugin) req.userTag req.timeoutMs 0 none = (pending, 0) ∧
        (apiAnswer h (.httpClientRequest (some req) outId alloc)).1 = { (storeLastReq h req alloc).1 with
          nextOutboundId := id + 1, pending, clientReqStarted := true, lastOutboundId := id
          log := (storeLastReq h req alloc).1.log ++
            [.handedOut id plugin (storeLastReq h req alloc).1.activeInboundSlot] } := by
  simp only [apiAnswer, apiHttpClientRequest] at hacc ⊢
  cases hplugin : h.activePlugin with
  | none =>
    simp only [hplugin] at hacc
    cases hacc
  | some plugin =>
    simp only [hplugin] at hacc ⊢
    -- Every branch but the last refuses.
    split_ifs at hacc ⊢ with hout hon hstarted hfull hfound hrc hins
    all_goals cases hacc
    exact ⟨plugin, rfl, not_not.mp hrc, rfl, _, Prod.ext rfl (not_not.mp hins), rfl⟩

/-- An accepted request is copied under the id that it gets. -/
theorem accepted_stores {h : EdgePluginHost P} {req : EdgeHttpClientReq} {outId alloc : Bool}
    {id : UInt64} (hacc : (apiAnswer h (.httpClientRequest (some req) outId alloc)).2 = .accepted id) :
    (storeLastReq h req alloc).2 = 0 ∧
      edgePluginHostLastClientReq (apiAnswer h (.httpClientRequest (some req) outId alloc)).1 =
        edgePluginHostLastClientReq (storeLastReq h req alloc).1 ∧
      (apiAnswer h (.httpClientRequest (some req) outId alloc)).1.lastOutboundId = id ∧
      (apiAnswer h (.httpClientRequest (some req) outId alloc)).1.clientReqStarted = true := by
  obtain ⟨plugin, -, hrc, -, pending, -, heq⟩ := accepted_eq hacc
  rw [heq]
  exact ⟨hrc, rfl, rfl, rfl⟩

/-- Where a callback has asked something, the rest of it goes on from the answer. -/
theorem exists_rest_of_asked {c : Client ApiCall ApiReply ρ} {h s : EdgePluginHost P} {q : ApiCall}
    (hasked : (s, q) ∈ c.asked apiAnswer h) :
    ∃ rest : Client ApiCall ApiReply ρ,
      c.run apiAnswer h = rest.run apiAnswer (apiAnswer s q).1 := by
  induction c generalizing h with
  | ret r => cases hasked
  | ask q' k ih =>
    rcases List.mem_cons.mp hasked with heq | hrest
    · obtain ⟨rfl, rfl⟩ := Prod.mk.inj heq
      exact ⟨k (apiAnswer s q).2, rfl⟩
    · exact ih _ hrest

/-- The calls that a dispatch makes, each with the host that it is made on. -/
def dispatchAsked (vtbl : P → Option (EdgePluginVtbl υ)) (h : EdgePluginHost P) (mem : υ)
    (plugin : Option P) (req : EdgeHttpReq) (res : EdgeHttpRes) : List (EdgePluginHost P × ApiCall) :=
  match httpHandler vtbl plugin with
  | none => []
  | some (p, onHttp) =>
    if (edgePendingFindInbound h.pending req.inboundSlot).isSome then []
    else (onHttp req res mem).asked apiAnswer (enterOnHttp h p req.inboundSlot)

/-- What follows `on_http` leaves the copy alone. -/
theorem afterOnHttp_lastClientReq (h : EdgePluginHost P) (st : PluginResult υ) (slot : UInt32) :
    edgePluginHostLastClientReq (afterOnHttp (leaveOnHttp h slot) st slot).host =
      edgePluginHostLastClientReq h := by
  unfold afterOnHttp
  split_ifs <;> rfl

/-- A request that `on_http` makes is refused, or it is what the host holds to be executed when the
dispatch is over. -/
def CarriedOver (vtbl : P → Option (EdgePluginVtbl υ)) (h : EdgePluginHost P) (mem : υ)
    (plugin : Option P) (inbound : EdgeHttpReq) (res : EdgeHttpRes) (s : EdgePluginHost P)
    (req : EdgeHttpClientReq) (outId alloc : Bool) : Prop :=
  (apiAnswer s (.httpClientRequest (some req) outId alloc)).2 = .status (-1) ∨
    (edgePluginHostLastClientReq
      (edgePluginHostDispatchHttp vtbl h mem plugin inbound res).host).map EdgeHttpClientReq.sent =
      some req.sent

/-- **A request is carried over exactly when it is refused or every part of it has room.** -/
theorem dispatch_carries_iff (vtbl : P → Option (EdgePluginVtbl υ)) (h : EdgePluginHost P) (mem : υ)
    (plugin : Option P) (inbound : EdgeHttpReq) (res : EdgeHttpRes) {s : EdgePluginHost P}
    {req : EdgeHttpClientReq} {outId alloc : Bool}
    (hasked : (s, .httpClientRequest (some req) outId alloc) ∈
      dispatchAsked vtbl h mem plugin inbound res) (hread : req.Readable) :
    CarriedOver vtbl h mem plugin inbound res s req outId alloc ↔
      ¬Acceptable s (.httpClientRequest (some req) outId alloc) ∨ req.sent.Fits := by
  unfold dispatchAsked at hasked
  split at hasked
  case h_1 => cases hasked
  case h_2 p onHttp hhandler =>
    by_cases hfound : (edgePendingFindInbound h.pending inbound.inboundSlot).isSome
    · rw [if_pos hfound] at hasked
      cases hasked
    rw [if_neg hfound] at hasked
    have hfree : edgePendingFindInbound h.pending inbound.inboundSlot = none := by
      simpa using hfound
    obtain ⟨rest, hrun⟩ := exists_rest_of_asked hasked
    rw [CarriedOver, dispatch_ran hhandler hfree, afterOnHttp_lastClientReq, hrun]
    by_cases hacc : Acceptable s (.httpClientRequest (some req) outId alloc)
    · obtain ⟨id, hid⟩ := (apiAnswer_effect s _).accepted_iff.mpr hacc
      obtain ⟨hrc, hcopy, -, hstarted⟩ := accepted_stores hid
      have hkeep : edgePluginHostLastClientReq (rest.run apiAnswer
            (apiAnswer s (.httpClientRequest (some req) outId alloc)).1).1 =
          edgePluginHostLastClientReq (apiAnswer s (.httpClientRequest (some req) outId alloc)).1 := by
        rw [run_keeps rest (.inr hstarted)]
        rfl
      rw [hkeep, hcopy, storeLastReq_sent hrc hread, hid, Option.some_inj, SentRequest.cut_eq_iff]
      simp [hacc]
    · have hreply := apiHttpClientRequest_reply s (some req) outId alloc
      have hrefused : (apiAnswer s (.httpClientRequest (some req) outId alloc)).2 = .status (-1) :=
        hreply.resolve_right fun hid => hacc ((apiAnswer_effect s _).accepted_iff.mp hid)
      exact ⟨fun _ => .inl hacc, fun _ => .inl hrefused⟩

/-! ### A long query -/

/-- The proxy's memory, in its default configuration. -/
def enabledProxy : OpenaiData :=
  openaiData { edgeOpenaiProxyConfigDefaults with enabled := true } (bytes "key")

/-- A request for the models, with a query of `n` bytes. -/
def queryReq (n : ℕ) : EdgeHttpReq where
  method := bytes "GET"
  path := bytes "/v1/models?" ++ List.replicate n (charByte 'a')
  query := none
  headers := []
  body := []
  principal := some { edgePrincipalClear with authenticated := true, roles := EdgeRole.employee.bit }
  inboundSlot := 0

/-- The URL of a long query is cut off behind its 511th byte, and sent so. -/
theorem not_dispatch_carries_longQuery :
    ∃ (s : EdgePluginHost Unit) (req : EdgeHttpClientReq),
      (s, .httpClientRequest (some req) true true) ∈
          dispatchAsked (fun _ => some (openaiVtbl 0 true)) (edgePluginHostCreate 1 none) enabledProxy
            (some ()) (queryReq 490) emptyRes ∧ req.Readable ∧
        ¬CarriedOver (fun _ => some (openaiVtbl 0 true)) (edgePluginHostCreate 1 none) enabledProxy
          (some ()) (queryReq 490) emptyRes s req true true := by
  refine ⟨enterOnHttp (edgePluginHostCreate 1 none) () 0,
    upstreamReq { enabledProxy with hitN := 1 } (queryReq 490), ?_, ?_, ?_⟩
  · decide +kernel
  · rintro body ⟨⟩
    exact le_rfl
  · rw [CarriedOver]
    decide +kernel

theorem dispatch_carries_shortQuery :
    CarriedOver (fun _ => some (openaiVtbl 0 true)) (edgePluginHostCreate 1 none) enabledProxy
      (some ()) (queryReq 3) emptyRes (enterOnHttp (edgePluginHostCreate 1 none) () 0)
      (upstreamReq { enabledProxy with hitN := 1 } (queryReq 3)) true true := by
  refine (dispatch_carries_iff _ _ _ _ _ _ (by decide +kernel) ?_).mpr (.inr (by decide))
  rintro body ⟨⟩
  exact le_rfl

end Edgehost
