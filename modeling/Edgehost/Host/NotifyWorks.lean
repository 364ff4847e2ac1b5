import Edgehost.Host.NotifyFields

/-!
# The payloads that do what they say

`NotifyWorks` is the purpose of a payload in documented order: a put stores the text of its value, a
delete removes the key, nothing else changes, and a put is announced with the request id of the
payload.

* `notifyWorks_iff`: this is so exactly when no earlier text takes the place of a member
  (`ReadAsWritten`) and the announcement fits.
-/

namespace Edgehost

/-! ## The request id -/

/-- A string behind which a quote follows some byte is closed at the latest there. -/
theorem strBody_isSome {c : UInt8} (hc : c ≠ backslash) (a s : Bytes) :
    (strBody (a ++ c :: quoteByte :: s)).isSome := by
  induction a using strBody.induct with
  | case1 =>
    by_cases hq : c = quoteByte
    · rw [hq, List.nil_append, strBody_quote]
      rfl
    · rw [List.nil_append, strBody_cons hq hc, strBody_quote]
      rfl
  | case2 a => rw [List.cons_append, strBody_quote]; rfl
  | case3 hq =>
    rw [List.cons_append, List.nil_append, strBody_escape, strBody_quote]
    rfl
  | case4 e a hq ih =>
    rw [List.cons_append, List.cons_append, strBody_escape, Option.isSome_map]
    exact ih
  | case5 b a hq hb ih =>
    rw [List.cons_append, strBody_cons hq hb, Option.isSome_map]
    exact ih

/-- The search for a request id always finds one in a payload that has it. -/
theorem requestIdFound_isSome (ns key text rid : Bytes) : (requestIdFound ns key text rid).isSome := by
  unfold requestIdFound
  split_ifs
  · rfl
  · rfl
  split
  · rfl
  · rename_i t _
    by_cases hq : quoteByte ∈ t.drop 12
    · obtain ⟨x, y, hxy, hx⟩ := List.eq_append_cons_of_mem hq
      rw [hxy, List.append_assoc, List.cons_append, stringAfter_eq hx, Option.isSome_map]
      exact strBody_isSome (by decide) y _
    · have ha : quoteByte ∉ t.drop 12 ++ [comma] := by
        simp [hq]
        decide
      have hsplit : t.drop 12 ++ comma :: fromRequestId rid = (t.drop 12 ++ [comma]) ++ quoteByte ::
          (bytes "request_id" ++ quoteByte :: (colon :: (quoted rid ++ [rbrace]))) := by
        simp [fromRequestId, quoted_append]
      rw [hsplit, stringAfter_eq ha, Option.isSome_map, strBody_clean (by decide)]
      rfl

/-! ## What a payload is for -/

/-- A put does what it says: the value is stored, nothing else changes, and every queue gets the
announcement. -/
structure PutWorks (st : StateStore) (h : EdgeWsHub) (b : Bucket) (ns key text rid : Bytes)
    (r : StateStore × Option EdgeWsHub × EdgeNotifyErr) : Prop where
  ok : r.2.2 = .ok
  stored : r.1.toMap = st.toMap.insert ns { b with entries := b.entries.insert key text }
  announced : ∃ h', r.2.1 = some h' ∧ ∀ i, h'.queue i
    = (h.queue i).map (enqueue (stateChangedText ns key (bytes "put") (some text) (some rid)))

/-- A delete does what it says. -/
structure DeleteWorks (st : StateStore) (b : Bucket) (ns key : Bytes)
    (r : StateStore × Option EdgeWsHub × EdgeNotifyErr) : Prop where
  ok : r.2.2 = .ok
  removed : r.1.toMap = st.toMap.insert ns { b with entries := b.entries.erase key }

/-- The payloads with these members work on every store and every hub: the namespace is registered and
enabled, the value is within the limit and there is room for the key. -/
def NotifyWorks (ns key text rid : Bytes) : Prop :=
  ∀ (st : StateStore) (h : EdgeWsHub) (alloc : ℕ → Bool) (b : Bucket), st.WF → h.WF → (∀ i, alloc i) →
    st.toMap.lookup ns = some b → b.enabled →
    (text.length ≤ st.maxValue →
      (b.entries.lookup key = none → b.entries.keys.card ≠ st.maxKeys) →
      (notifyPayload ns key (bytes "put") text rid).length ≤ EDGE_NOTIFY_MAX_PAYLOAD →
      PutWorks st h b ns key text rid
        (edgeNotifyApply st (some h) alloc (notifyPayload ns key (bytes "put") text rid))) ∧
    ((notifyPayload ns key (bytes "delete") text rid).length ≤ EDGE_NOTIFY_MAX_PAYLOAD →
      DeleteWorks st b ns key
        (edgeNotifyApply st (some h) alloc (notifyPayload ns key (bytes "delete") text rid)))

/-- No earlier text takes the place of a member. -/
structure ReadAsWritten (ns key text rid : Bytes) : Prop where
  ns_clean : Clean ns
  key_member : ns = bytes "key" → key = bytes "key"
  op_member : ns ≠ bytes "op" ∧ key ≠ bytes "op"
  value_member : (ns = bytes "value" → text = quoted key) ∧
    (ns ≠ bytes "value" → key = bytes "value" → text = quoted (bytes "put"))
  request_id_member : (ns = bytes "request_id" → rid = bytes "key") ∧
    (ns ≠ bytes "request_id" → key = bytes "request_id" → rid = bytes "op") ∧
    (ns ≠ bytes "request_id" → key ≠ bytes "request_id" → ∀ t,
      strstr text (quoted (bytes "request_id")) = some t →
        stringAfter (t.drop 12 ++ comma :: fromRequestId rid) EDGE_WS_REQUEST_ID = some rid)

theorem requestIdFound_eq_iff {ns key text rid : Bytes} :
    requestIdFound ns key text rid = some rid ↔
      (ns = bytes "request_id" → rid = bytes "key") ∧
      (ns ≠ bytes "request_id" → key = bytes "request_id" → rid = bytes "op") ∧
      (ns ≠ bytes "request_id" → key ≠ bytes "request_id" → ∀ t,
        strstr text (quoted (bytes "request_id")) = some t →
          stringAfter (t.drop 12 ++ comma :: fromRequestId rid) EDGE_WS_REQUEST_ID = some rid) := by
  unfold requestIdFound
  by_cases hn : ns = bytes "request_id"
  · simp [hn, eq_comm]
  by_cases hk : key = bytes "request_id"
  · simp [hn, hk, eq_comm]
  rcases strstr text (quoted (bytes "request_id")) with _ | t
  · simp [hn, hk]
  · simp [hn, hk]

/-! ## Reading as written -/

section

variable {ns key op text rid : Bytes}

theorem edgeStateJsonOk_payload : edgeStateJsonOk (notifyPayload ns key op text rid) := by
  have hspace : (notifyPayload ns key op text rid).dropWhile isspace
      = notifyPayload ns key op text rid := List.dropWhile_cons_of_neg (by decide)
  rw [edgeStateJsonOk, hspace]
  rfl

/-- The fields of a payload with a clean namespace. -/
theorem PayloadParts.readsFields (h : PayloadParts ns key op text rid)
    (hread : ReadAsWritten ns key text rid) :
    ReadsFields (notifyPayload ns key op text rid) ns key op where
  size := h.size'
  json_ok := edgeStateJsonOk_payload
  ns_field := h.ns_field_eq hread.ns_clean
  key_field := by
    rw [h.key_field hread.ns_clean]
    split_ifs with hk
    · rw [hread.key_member hk]
    · rfl
  op_field := by rw [h.op_field hread.ns_clean, if_neg hread.op_member.1, if_neg hread.op_member.2]
  key_valid := h.key_valid

/-- A value of JSON is no word of the code. -/
theorem PayloadParts.text_not_null (h : PayloadParts ns key op text rid) : text ≠ bytes "null" := by
  obtain ⟨n, v, hv, hnull⟩ := h.value
  obtain ⟨c, t, rfl, -, hc⟩ := head_of_value hv hnull
  exact fun heq => hc (List.cons.inj heq).1

theorem PayloadParts.readsPut (h : PayloadParts ns key (bytes "put") text rid)
    (hread : ReadAsWritten ns key text rid) :
    ReadsPut (notifyPayload ns key (bytes "put") text rid) ns key text where
  fields := h.readsFields hread
  value_field := by
    rw [h.value_field hread.ns_clean]
    split_ifs with hn hk
    · rw [hread.value_member.1 hn]
    · rw [hread.value_member.2 hn hk]
    · rfl
  not_null := h.text_not_null

theorem PayloadParts.requestId (h : PayloadParts ns key op text rid) (hns : Clean ns)
    (hub : Option EdgeWsHub) : ∃ rid', requestIdFound ns key text rid = some rid' ∧
      notifyRequestId hub (notifyPayload ns key op text rid) = (hub, rid') := by
  obtain ⟨rid', hrid⟩ := Option.isSome_iff_exists.mp (requestIdFound_isSome ns key text rid)
  refine ⟨rid', hrid, ?_⟩
  unfold notifyRequestId
  rw [h.requestId_field hns, hrid]

/-- A numeral starts with a sign or a digit. -/
theorem head_of_isNumeral {c : UInt8} {w : Bytes} (h : isNumeral (c :: w)) :
    c = charByte '-' ∨ isdigit c := by
  by_cases hminus : c = charByte '-'
  · exact .inl hminus
  · rw [isNumeral, if_neg hminus, isUnsigned] at h
    split_ifs at h with hzero
    · rw [hzero]
      exact .inr (by decide)
    · rw [Bool.and_eq_true] at h
      exact .inr h.1

/-- A value of JSON passes the check of the store. -/
theorem jsonOk_of_value {n : ℕ} {v : Json} (h : readValue n text = some (v, []))
    (hv : v ≠ .null) : edgeStateJsonOk text := by
  obtain ⟨c, t, rfl, hspace, -⟩ := head_of_value h hv
  have hstart : (c :: t).dropWhile isspace = c :: t := List.dropWhile_cons_of_neg (by simp [hspace])
  rw [edgeStateJsonOk, hstart]
  dsimp only
  match n with
  | 0 => cases h
  | n + 1 =>
    rw [readValue] at h
    split_ifs at h with hq ha ho hn ht hf
    · rw [hq]; decide
    · rw [ha]; decide
    · rw [ho]; decide
    · rw [hn]; decide
    · rw [ht]; decide
    · rw [hf]; decide
    · obtain ⟨hnum, -⟩ := Option.ite_none_right_eq_some.mp h
      by_cases hc : isNumByte c
      · rw [List.takeWhile_cons_of_pos hc] at hnum
        rcases head_of_isNumeral hnum with rfl | hdigit
        · decide
        · exact forall_byte (P := fun c => isdigit c → (c = 0x7b || c = charByte '[' ||
            c = charByte '"' || c = charByte '-' || (charByte '0' ≤ c && c ≤ charByte '9') ||
            c = charByte 't' || c = charByte 'f' || c = charByte 'n') = true) (by decide +kernel) c hdigit
      · rw [List.takeWhile_cons_of_neg hc] at hnum
        cases hnum

/-- A put that the store has room for. -/
theorem edgeStatePut_room {st : StateStore} {b : Bucket} (hwf : st.WF)
    (hb : st.toMap.lookup ns = some b) (hen : b.enabled) (hkey : edgeStateKeyValid key)
    (hjson : edgeStateJsonOk text) (hlen : text.length ≤ st.maxValue)
    (hroom : b.entries.lookup key = none → b.entries.keys.card ≠ st.maxKeys) :
    (edgeStatePut st ns key text).2 = .ok ∧ (edgeStatePut st ns key text).1.toMap
      = st.toMap.insert ns { b with entries := b.entries.insert key text } := by
  have href := edgeStatePut_refines hwf ns key text
  have hput : st.toMap.put st.limits ns key text
      = (st.toMap.insert ns { b with entries := b.entries.insert key text }, .ok) := by
    have hlen : ¬text.length > st.limits.maxValue := Nat.not_lt.mpr hlen
    have hroom : ¬(b.entries.lookup key = none ∧ b.entries.keys.card = st.limits.maxKeys) :=
      fun h => hroom h.1 h.2
    simp only [StateMap.put, hb, hen, hkey, hjson, hlen, hroom, Bool.not_true, Bool.false_eq_true,
      if_false]
  rw [hput] at href
  exact ⟨href.ret, href.toMap⟩

/-- A delete in an enabled namespace. -/
theorem edgeStateDelete_enabled {st : StateStore} {b : Bucket} (hwf : st.WF)
    (hb : st.toMap.lookup ns = some b) (hen : b.enabled) :
    ((edgeStateDelete st ns key).2 = .ok ∨ (edgeStateDelete st ns key).2 = .notFound) ∧
      (edgeStateDelete st ns key).1.toMap
        = st.toMap.insert ns { b with entries := b.entries.erase key } := by
  have href := edgeStateDelete_refines hwf ns key
  rw [href.ret, href.toMap]
  by_cases hkey : b.entries.lookup key = none
  · have hsame : st.toMap.insert ns { b with entries := b.entries.erase key } = st.toMap := by
      have herase : b.entries.erase key = b.entries := by
        refine Finmap.ext_lookup fun k => ?_
        by_cases hk : k = key
        · rw [hk, Finmap.lookup_erase, hkey]
        · rw [Finmap.lookup_erase_ne hk]
      rw [herase]
      refine Finmap.ext_lookup fun k => ?_
      by_cases hk : k = ns
      · rw [hk, Finmap.lookup_insert, hb]
      · rw [Finmap.lookup_insert_of_ne _ hk]
    rw [hsame]
    simp [StateMap.delete, hb, hen, hkey]
  · simp [StateMap.delete, hb, hen, hkey]

end

/-! ## When a payload works -/

section

variable {ns key text rid : Bytes}

/-- Payloads that are read as written work. -/
theorem ReadAsWritten.works (hread : ReadAsWritten ns key text rid)
    (hfits : StateChangedFits EDGE_WS_MSG_MAX ns key (bytes "put") (some text) (some rid))
    (hparts : ∀ op, (op = bytes "put" ∨ op = bytes "delete") →
      (notifyPayload ns key op text rid).length ≤ EDGE_NOTIFY_MAX_PAYLOAD →
      PayloadParts ns key op text rid) : NotifyWorks ns key text rid := by
  intro st h alloc b hwf hhub halloc hb hen
  have hrid' := requestIdFound_eq_iff.mpr hread.request_id_member
  constructor
  · intro hlen hroom hsize
    have hp := hparts _ (.inl rfl) hsize
    obtain ⟨n, v, hv, hnull⟩ := hp.value
    obtain ⟨hok, hmap⟩ := edgeStatePut_room hwf hb hen hp.key_valid (jsonOk_of_value hv hnull) hlen hroom
    obtain ⟨rid', hfound, hid⟩ := hp.requestId hread.ns_clean (some h)
    obtain rfl : rid' = rid := Option.some.inj (hfound.symm.trans hrid')
    rw [edgeNotifyApply_put st (some h) alloc (hp.readsPut hread), if_pos hok, hid]
    refine ⟨rfl, hmap, _, rfl, fun i => ?_⟩
    rw [edgeWsHubBroadcastStateChanged_queue hhub halloc, if_pos hfits]
  · intro hsize
    have hp := hparts _ (.inr rfl) hsize
    obtain ⟨hret, hmap⟩ := edgeStateDelete_enabled hwf hb hen
    rw [edgeNotifyApply_delete st (some h) alloc (hp.readsFields hread)]
    split_ifs with hok hmissing
    · exact ⟨rfl, hmap⟩
    · exact ⟨rfl, hmap⟩
    · exact absurd hret (by simp [hok, hmissing])

/-- A store where this namespace is the only one, enabled and empty, with room for one key. -/
def onlyNs (ns : Bytes) : StateStore :=
  let st : StateStore := { ns := [], maxKeys := 1, maxValue := EDGE_STATE_VALUE_MAX }
  { st with ns := st.ns ++ [newNs st ns true] }

theorem onlyNs_spec (hns : ns.length < 64) :
    (onlyNs ns).WF ∧ (onlyNs ns).toMap.lookup ns = some { enabled := true, entries := ∅ } ∧
      ∀ ns', ns' ≠ ns → (onlyNs ns).toMap.lookup ns' = none := by
  have hempty : ({ ns := [], maxKeys := 1, maxValue := EDGE_STATE_VALUE_MAX } : StateStore).WF :=
    ⟨Nat.zero_le _, by intro i j x y hx; simp at hx, by simp⟩
  obtain ⟨hwf, hmap⟩ := appendNs hempty true hns (by decide) rfl
  refine ⟨hwf, ?_, fun ns' hne => ?_⟩
  · rw [onlyNs, hmap, Finmap.lookup_insert]
  · rw [onlyNs, hmap, Finmap.lookup_insert_of_ne _ hne]
    exact toMap_lookup_of_findNs_none rfl

/-- A hub with one subscriber. -/
def oneSub : EdgeWsHub where
  subs := [{ EdgeWsSub.idle with active := true }]
  nextRid := 1

theorem oneSub_wf : oneSub.WF := by
  intro s hs
  rw [List.mem_singleton.mp hs]
  exact ⟨RingBuf.WF.empty (by decide), rfl, by decide⟩

/-- A put of the map that succeeds found an enabled namespace. -/
theorem lookup_of_put_ok {st : StateStore} (hwf : st.WF)
    (h : (edgeStatePut st ns key text).2 = .ok) :
    ∃ b, st.toMap.lookup ns = some b ∧ (edgeStatePut st ns key text).1.toMap
      = st.toMap.insert ns { b with entries := b.entries.insert key text } := by
  have href := edgeStatePut_refines hwf ns key text
  rw [href.ret] at h
  rw [href.toMap]
  unfold StateMap.put at h ⊢
  rcases hb : st.toMap.lookup ns with _ | b
  · rw [hb] at h
    cases h
  · rw [hb] at h
    dsimp only at h ⊢
    split_ifs at h ⊢
    exact ⟨b, rfl, rfl⟩

theorem lookup_of_delete_found {st : StateStore} (hwf : st.WF)
    (h : (edgeStateDelete st ns key).2 = .ok ∨ (edgeStateDelete st ns key).2 = .notFound) :
    ∃ b, st.toMap.lookup ns = some b := by
  rw [(edgeStateDelete_refines hwf ns key).ret] at h
  unfold StateMap.delete at h
  rcases hb : st.toMap.lookup ns with _ | b
  · rw [hb] at h
    simp at h
  · exact ⟨b, rfl⟩

/-- A put whose namespace, key, value and request id are found in the payload has no text in the place of
another member. -/
theorem PayloadParts.readAsWritten (hp : PayloadParts ns key (bytes "put") text rid) (hclean : Clean ns)
    (hreads : ReadsPut (notifyPayload ns key (bytes "put") text rid) ns key text)
    (hfound : requestIdFound ns key text rid = some rid) : ReadAsWritten ns key text rid := by
  refine ⟨hclean, fun hn => ?_, ⟨fun hn => ?_, fun hk => ?_⟩, ⟨fun hn => ?_, fun hn hk => ?_⟩,
    requestIdFound_eq_iff.mp hfound⟩
  · have hfield := hreads.fields.key_field
    rw [hp.key_field hclean, if_pos hn] at hfield
    exact (Option.some.inj hfield).symm
  · have hfield := hreads.fields.op_field
    rw [hp.op_field hclean, if_pos hn] at hfield
    exact absurd hfield (by decide)
  · have hfield := hreads.fields.op_field
    rw [hp.op_field hclean, if_pos hk] at hfield
    split_ifs at hfield <;> exact absurd hfield (by decide)
  · have hfield := hreads.value_field
    rw [hp.value_field hclean, if_pos hn] at hfield
    exact (Option.some.inj hfield).symm
  · have hfield := hreads.value_field
    rw [hp.value_field hclean, if_neg hn, if_pos hk] at hfield
    exact (Option.some.inj hfield).symm

/-- The only queue says which request id was sent, and that the message fits. -/
theorem fits_of_oneSub_queue {op rid' : Bytes} {value : Option Bytes}
    (hq : (edgeWsHubBroadcastStateChanged oneSub (fun _ => true) ns key op value (some rid')).1.queue 0
      = some (enqueue (stateChangedText ns key op value (some rid)) [])) :
    StateChangedFits EDGE_WS_MSG_MAX ns key op value (some rid') ∧ rid' = rid := by
  have hempty : oneSub.queue 0 = some [] := rfl
  rw [edgeWsHubBroadcastStateChanged_queue oneSub_wf fun _ => rfl, hempty] at hq
  split_ifs at hq with hfits
  · simp only [Option.map_some, Option.some.injEq, enqueue, List.append_cancel_left_eq,
      List.cons.injEq, and_true, stateChangedText, Option.getD_some, stateChangedTail,
      List.append_cancel_right_eq] at hq
    exact ⟨hfits, hq⟩
  · simp [enqueue, dropOldest] at hq

/-- A payload that works is read as written: the namespace, the key, the operation and the value. -/
theorem NotifyWorks.readAsWritten (hw : NotifyWorks ns key text rid)
    (hp : PayloadParts ns key (bytes "put") text rid) :
    ReadAsWritten ns key text rid ∧
      StateChangedFits EDGE_WS_MSG_MAX ns key (bytes "put") (some text) (some rid) := by
  obtain ⟨hwf, hb, hother⟩ := onlyNs_spec hp.ns_short
  obtain ⟨hok, hstored, h', hh', hqueue⟩ := (hw (onlyNs ns) oneSub (fun _ => true) _ hwf oneSub_wf
    (fun _ => rfl) hb rfl).1 hp.text_short.le (fun _ => by simp [onlyNs]) hp.size
  -- The payload is read in the namespace, since there is no other one.
  have hns : ∀ {ns' key' op'}, ReadsFields (notifyPayload ns key (bytes "put") text rid) ns' key' op' →
      (∃ b, (onlyNs ns).toMap.lookup ns' = some b) → ns' = ns ∧ Clean ns := by
    rintro ns' key' op' hf ⟨b, hlookup⟩
    have heq : ns' = ns := by
      by_contra hne
      rw [hother ns' hne] at hlookup
      cases hlookup
    have hfield := hf.ns_field
    rw [hp.ns_field, heq] at hfield
    exact ⟨heq, clean_of_read hfield⟩
  have hdelete : ∀ {ns' key'}, ¬(ReadsFields (notifyPayload ns key (bytes "put") text rid) ns' key'
      (bytes "delete") ∧ ∃ b, (onlyNs ns).toMap.lookup ns' = some b) := by
    rintro ns' key' ⟨hf, hlookup⟩
    have hfield := hf.op_field
    rw [hp.op_field (hns hf hlookup).2, Option.some.injEq] at hfield
    split_ifs at hfield <;> exact absurd hfield (by decide)
  rcases edgeNotifyApply_cases (onlyNs ns) (some oneSub) (fun _ => true)
      (notifyPayload ns key (bytes "put") text rid) with
    ⟨hne, -⟩ | ⟨ns', key', value, hreads, hput, hr⟩ | ⟨ns', key', hf, hdel, -⟩ | ⟨ns', key', hf, hdel, -⟩
  · exact absurd hok hne
  · obtain ⟨b, hlookup, hmap⟩ := lookup_of_put_ok hwf hput
    obtain ⟨rfl, hclean⟩ := hns hreads.fields ⟨b, hlookup⟩
    obtain ⟨rid', hfound, hid⟩ := hp.requestId hclean (some oneSub)
    rw [hr] at hstored hh'
    -- The value that is stored says which key and which text were read.
    have hentries := congrArg (fun m => m.lookup ns') (hmap.symm.trans hstored)
    obtain rfl := Option.some.inj (hb.symm.trans hlookup)
    simp only [Finmap.lookup_insert, Option.some.injEq, Bucket.mk.injEq, true_and] at hentries
    have hkey : key' = key := by
      by_contra hne
      have hlook := congrArg (Finmap.lookup key) hentries
      rw [Finmap.lookup_insert, Finmap.lookup_insert_of_ne _ (Ne.symm hne)] at hlook
      cases hlook
    subst hkey
    have hvalue : value = text := by
      have hlook := congrArg (Finmap.lookup key') hentries
      rw [Finmap.lookup_insert, Finmap.lookup_insert] at hlook
      exact Option.some.inj hlook
    subst hvalue
    rw [hid] at hh'
    have hq := hqueue 0
    rw [← Option.some.inj hh'] at hq
    obtain ⟨hfits, rfl⟩ := fits_of_oneSub_queue hq
    exact ⟨hp.readAsWritten hclean hreads hfound, hfits⟩
  · exact absurd ⟨hf, lookup_of_delete_found hwf (.inl hdel)⟩ hdelete
  · exact absurd ⟨hf, lookup_of_delete_found hwf (.inr hdel)⟩ hdelete

/-- **When a payload does what it says.** For every namespace name that can be registered, every valid
key, every JSON value that is not null and every plain request id, the payloads of the put and of the
delete work on all stores and hubs exactly when no earlier text takes the place of a member and the
announcement fits. -/
theorem notifyWorks_iff (hns : ns.length < 64 ∧ (0 : UInt8) ∉ ns) (hkey : edgeStateKeyValid key)
    (hvalue : ∃ n v, readValue n text = some (v, []) ∧ v ≠ .null)
    (hrid : rid.all isPlain ∧ rid.length < EDGE_WS_REQUEST_ID)
    (hsize : (notifyPayload ns key (bytes "put") text rid).length ≤ EDGE_NOTIFY_MAX_PAYLOAD) :
    NotifyWorks ns key text rid ↔ ReadAsWritten ns key text rid ∧
      StateChangedFits EDGE_WS_MSG_MAX ns key (bytes "put") (some text) (some rid) := by
  have hparts : ∀ op, (op = bytes "put" ∨ op = bytes "delete") →
      (notifyPayload ns key op text rid).length ≤ EDGE_NOTIFY_MAX_PAYLOAD →
      PayloadParts ns key op text rid := fun op hop hlen =>
    ⟨hns.1, hns.2, hkey, hop, hvalue, hrid.1, hrid.2, hlen⟩
  exact ⟨fun hw => hw.readAsWritten (hparts _ (.inl rfl) hsize),
    fun ⟨hread, hfits⟩ => hread.works hfits hparts⟩

end

/-- The text is a JSON value other than null, by some fuel. -/
def isValueText (n : ℕ) (text : Bytes) : Bool :=
  match readValue n text with
  | some (.null, _) => false
  | some (_, []) => true
  | _ => false

theorem value_of_isValueText {n : ℕ} {text : Bytes} (h : isValueText n text) :
    ∃ n v, readValue n text = some (v, []) ∧ v ≠ .null := by
  unfold isValueText at h
  split at h
  · cases h
  · rename_i v hnull hread
    exact ⟨n, v, hread, hnull⟩
  · cases h

theorem notifyWorks_door :
    NotifyWorks (bytes "net.core") (bytes "door") (bytes "[1, \"open\"]") (bytes "r1") := by
  refine (notifyWorks_iff (by decide +kernel) (by decide +kernel)
    (value_of_isValueText (n := 3) (by decide +kernel)) (by decide +kernel) (by decide +kernel)).mpr
    ⟨⟨by decide +kernel, by decide +kernel, by decide +kernel, by decide +kernel, by decide +kernel,
      by decide +kernel, fun _ _ t ht => ?_⟩, by decide +kernel⟩
  have hnone : strstr (bytes "[1, \"open\"]") (quoted (bytes "request_id")) = none := by
    decide +kernel
  rw [hnone] at ht
  cases ht

/-- The key `op` takes the place of the operation. -/
theorem not_notifyWorks_op : ¬NotifyWorks (bytes "net.core") (bytes "op") (bytes "1") (bytes "r1") := by
  rw [notifyWorks_iff (by decide +kernel) (by decide +kernel)
    (value_of_isValueText (n := 3) (by decide +kernel)) (by decide +kernel) (by decide +kernel)]
  exact fun h => h.1.op_member.2 rfl

end Edgehost
