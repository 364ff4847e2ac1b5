import Edgehost.Host.WsHub

/-!
# NOTIFY payloads (`notify_apply.c`)

A payload is copied to a C string and searched as text: a member is what stands behind the first
occurrence of its quoted name. `edgeNotifyApply` puts or deletes the key it finds and broadcasts the
change. The store and the payload pointers are not NULL here; a NULL hub is `none`.

* `edgeNotifyApply_refused`: a refused payload changes neither the store nor a queue.
* `edgeNotifyApply_cases`: an accepted one is a put or a delete that the store takes.
-/

namespace Edgehost

def EDGE_NOTIFY_MAX_PAYLOAD : ℕ := 8000

/-- `edge_notify_err_t`. -/
inductive EdgeNotifyErr
  | ok
  | badJson
  | badSchema
  | stateErr
  | tooLarge
  deriving DecidableEq

/-! ## The text search -/

/-- The loop to the closing quote of a string: the rest from there, or nothing. -/
def skipString : Bytes → Bytes
  | [] => []
  | c :: s =>
    if c = quoteByte then c :: s
    else if c = backslash then
      match s with
      | [] => []
      | _ :: s => skipString s
    else skipString s

/-- The copy loop of a string field: a backslash is dropped and the byte behind it kept. -/
def unescape : Bytes → Bytes
  | [] => []
  | c :: s =>
    if c = backslash then
      match s with
      | [] => [c]
      | e :: s => e :: unescape s
    else c :: unescape s

/-- The string behind the opening quote that comes first in a text. -/
def stringAfter (p : Bytes) (outSz : ℕ) : Option Bytes :=
  match strchr p quoteByte with
  | none => none
  | some [] => none
  | some (_ :: p) =>
    let stop := skipString p
    -- The loop also stops at the end of the payload.
    if stop = [] then none
    else some (snprintf outSz (unescape (p.take (p.length - stop.length))))

/-- `edge_notify_json_string_field`, for `out_sz > 0`. -/
def edgeNotifyJsonStringField (json name : Bytes) (outSz : ℕ) : Option Bytes :=
  if json.length = 0 ∨ json.length > EDGE_NOTIFY_MAX_PAYLOAD then none
  else
    let key := snprintf 80 (quoted name)
    match strstr (cstr json) key with
    | none => none
    | some p => stringAfter (p.drop key.length) outSz

/-- The loop over an object or an array: what is left when `depth` brackets are closed, or nothing.
The flag says that the loop is inside a string. -/
def skipNested (opn cls : UInt8) : ℕ → Bool → Bytes → Bytes
  | _, _, [] => []
  | 0, false, c :: s => c :: s
  | depth + 1, false, c :: s =>
    if c = quoteByte then skipNested opn cls (depth + 1) true s
    else if c = opn then skipNested opn cls (depth + 2) false s
    else if c = cls then skipNested opn cls depth false s
    else skipNested opn cls (depth + 1) false s
  | depth, true, c :: s =>
    if c = quoteByte then skipNested opn cls depth false s
    else if c = backslash then
      match s with
      | [] => []
      | _ :: s => skipNested opn cls depth true s
    else skipNested opn cls depth true s

/-- A byte that ends a number or a name. -/
def endsScalar (c : UInt8) : Bool := c = comma || c = rbrace || isspace c

/-- What is left behind the value at the front of a text. -/
def skipRaw : Bytes → Bytes
  | [] => []
  | c :: s =>
    if c = lbrace then skipNested lbrace rbrace 1 false s
    else if c = lbracket then skipNested lbracket rbracket 1 false s
    else if c = quoteByte then (skipString s).drop 1
    else (c :: s).dropWhile fun c => !endsScalar c

/-- `extract_raw_value`. -/
def extractRawValue (json : Bytes) (outSz : ℕ) : Option Bytes :=
  if json.length > EDGE_NOTIFY_MAX_PAYLOAD then none
  else
    match strstr (cstr json) (quoted (bytes "value")) with
    | none => none
    | some p =>
      match strchr p colon with
      | none => none
      | some p =>
        let start := (p.drop 1).dropWhile isspace
        if start = [] then none
        else if (bytes "null").isPrefixOf start then
          if outSz < 5 then none else some (bytes "null")
        else
          let n := start.length - (skipRaw start).length
          if n + 1 > outSz then none else some (start.take n)

/-! ## Applying a payload -/

/-- The request id of a payload, or a new one. -/
def notifyRequestId (hub : Option EdgeWsHub) (json : Bytes) : Option EdgeWsHub × Bytes :=
  match edgeNotifyJsonStringField json (bytes "request_id") EDGE_WS_REQUEST_ID with
  | some rid => (hub, rid)
  | none =>
    match hub with
    | some _ => edgeWsHubMintRequestId hub none EDGE_WS_REQUEST_ID
    | none => (none, snprintf EDGE_WS_REQUEST_ID (bytes "notify"))

/-- The broadcast of a change, if there is a hub. -/
def broadcastTo (hub : Option EdgeWsHub) (alloc : ℕ → Bool) (ns key op : Bytes)
    (value : Option Bytes) (rid : Bytes) : Option EdgeWsHub :=
  hub.map fun h => (edgeWsHubBroadcastStateChanged h alloc ns key op value (some rid)).1

/-- `edge_notify_apply`. -/
def edgeNotifyApply (st : StateStore) (hub : Option EdgeWsHub) (alloc : ℕ → Bool) (json : Bytes) :
    StateStore × Option EdgeWsHub × EdgeNotifyErr :=
  if json.length = 0 ∨ json.length > EDGE_NOTIFY_MAX_PAYLOAD then (st, hub, .tooLarge)
  else if !edgeStateJsonOk json then (st, hub, .badJson)
  else
    match edgeNotifyJsonStringField json (bytes "ns") 64,
        edgeNotifyJsonStringField json (bytes "key") EDGE_STATE_KEY_MAX,
        edgeNotifyJsonStringField json (bytes "op") 16 with
    | some ns, some key, some op =>
      if !edgeStateKeyValid key then (st, hub, .badSchema)
      else
        let (hub, rid) := notifyRequestId hub json
        if op = bytes "delete" then
          let (st', er) := edgeStateDelete st ns key
          if er ≠ .ok ∧ er ≠ .notFound then (st', hub, .stateErr)
          else if er = .ok then (st', broadcastTo hub alloc ns key (bytes "delete") none rid, .ok)
          else (st', hub, .ok)
        else if op ≠ bytes "put" then (st, hub, .badSchema)
        else
          match extractRawValue json (EDGE_STATE_VALUE_MAX + 1) with
          | none => (st, hub, .badSchema)
          | some value =>
            if value = bytes "null" then (st, hub, .badSchema)
            else
              let (st', er) := edgeStatePut st ns key value
              if er ≠ .ok then (st', hub, .stateErr)
              else (st', broadcastTo hub alloc ns key (bytes "put") (some value) rid, .ok)
    | _, _, _ => (st, hub, .badSchema)

/-! ## What a payload does -/

/-- The fields that every accepted payload has, as the text search finds them. -/
structure ReadsFields (json ns key op : Bytes) : Prop where
  size : 0 < json.length ∧ json.length ≤ EDGE_NOTIFY_MAX_PAYLOAD
  json_ok : edgeStateJsonOk json
  ns_field : edgeNotifyJsonStringField json (bytes "ns") 64 = some ns
  key_field : edgeNotifyJsonStringField json (bytes "key") EDGE_STATE_KEY_MAX = some key
  op_field : edgeNotifyJsonStringField json (bytes "op") 16 = some op
  key_valid : edgeStateKeyValid key

/-- The text search finds a put. -/
structure ReadsPut (json ns key value : Bytes) : Prop where
  fields : ReadsFields json ns key (bytes "put")
  value_field : extractRawValue json (EDGE_STATE_VALUE_MAX + 1) = some value
  not_null : value ≠ bytes "null"

theorem notifyRequestId_subs (hub : Option EdgeWsHub) (json : Bytes) :
    (notifyRequestId hub json).1.map EdgeWsHub.subs = hub.map EdgeWsHub.subs := by
  unfold notifyRequestId
  split
  · rfl
  · rcases hub with _ | h <;> rfl

/-- A put that fails changes nothing. -/
theorem edgeStatePut_of_ne_ok {st : StateStore} {ns key value : Bytes}
    (h : (edgeStatePut st ns key value).2 ≠ .ok) : (edgeStatePut st ns key value).1 = st := by
  unfold edgeStatePut at h ⊢
  split
  · rfl
  · split_ifs <;> try rfl
    split
    · simp_all
    · split
      · rfl
      · simp_all

/-- A delete that fails changes nothing. -/
theorem edgeStateDelete_of_ne_ok {st : StateStore} {ns key : Bytes}
    (h : (edgeStateDelete st ns key).2 ≠ .ok) : (edgeStateDelete st ns key).1 = st := by
  unfold edgeStateDelete at h ⊢
  split
  · rfl
  · split
    · rfl
    · split
      · rfl
      · simp_all

section Accepted

variable {json ns key : Bytes} (st : StateStore) (hub : Option EdgeWsHub) (alloc : ℕ → Bool)

/-- A payload that is read as a put. -/
theorem edgeNotifyApply_put {value : Bytes} (h : ReadsPut json ns key value) :
    edgeNotifyApply st hub alloc json =
      if (edgeStatePut st ns key value).2 = .ok then
        ((edgeStatePut st ns key value).1, broadcastTo (notifyRequestId hub json).1 alloc ns key
          (bytes "put") (some value) (notifyRequestId hub json).2, .ok)
      else ((edgeStatePut st ns key value).1, (notifyRequestId hub json).1, .stateErr) := by
  obtain ⟨⟨hsize, hjson, hns, hkey, hop, hvalid⟩, hvalue, hnull⟩ := h
  have hsize : ¬(json.length = 0 ∨ json.length > EDGE_NOTIFY_MAX_PAYLOAD) := by omega
  have hop' : bytes "put" ≠ bytes "delete" := by decide
  simp only [edgeNotifyApply, hsize, hjson, hns, hkey, hop, hvalid, hvalue, hnull, hop', if_false,
    Bool.not_true, Bool.false_eq_true, ne_eq, not_true_eq_false, ite_not]

/-- A payload that is read as a delete. -/
theorem edgeNotifyApply_delete (h : ReadsFields json ns key (bytes "delete")) :
    edgeNotifyApply st hub alloc json =
      if (edgeStateDelete st ns key).2 = .ok then
        ((edgeStateDelete st ns key).1, broadcastTo (notifyRequestId hub json).1 alloc ns key
          (bytes "delete") none (notifyRequestId hub json).2, .ok)
      else if (edgeStateDelete st ns key).2 = .notFound then
        ((edgeStateDelete st ns key).1, (notifyRequestId hub json).1, .ok)
      else ((edgeStateDelete st ns key).1, (notifyRequestId hub json).1, .stateErr) := by
  obtain ⟨hsize, hjson, hns, hkey, hop, hvalid⟩ := h
  have hsize : ¬(json.length = 0 ∨ json.length > EDGE_NOTIFY_MAX_PAYLOAD) := by omega
  simp only [edgeNotifyApply, hsize, hjson, hns, hkey, hop, hvalid, if_false, if_true,
    Bool.not_true, Bool.false_eq_true]
  rcases (edgeStateDelete st ns key).2 <;> simp

end Accepted

/-- A payload that is read as neither is refused, with the store and the queues as they were. -/
theorem edgeNotifyApply_unread (st : StateStore) (hub : Option EdgeWsHub) (alloc : ℕ → Bool)
    {json : Bytes} (hput : ¬∃ ns key value, ReadsPut json ns key value)
    (hdelete : ¬∃ ns key, ReadsFields json ns key (bytes "delete")) :
    ∃ e, e ≠ EdgeNotifyErr.ok ∧ (edgeNotifyApply st hub alloc json = (st, hub, e) ∨
      edgeNotifyApply st hub alloc json = (st, (notifyRequestId hub json).1, e)) := by
  unfold edgeNotifyApply
  by_cases hsize : json.length = 0 ∨ json.length > EDGE_NOTIFY_MAX_PAYLOAD
  · exact ⟨.tooLarge, by decide, .inl (if_pos hsize)⟩
  rw [if_neg hsize]
  by_cases hjson : (!edgeStateJsonOk json) = true
  · exact ⟨.badJson, by decide, .inl (if_pos hjson)⟩
  rw [if_neg hjson]
  rcases hns : edgeNotifyJsonStringField json (bytes "ns") 64 with _ | ns
  · exact ⟨.badSchema, by decide, .inl rfl⟩
  rcases hkey : edgeNotifyJsonStringField json (bytes "key") EDGE_STATE_KEY_MAX with _ | key
  · exact ⟨.badSchema, by decide, .inl rfl⟩
  rcases hop : edgeNotifyJsonStringField json (bytes "op") 16 with _ | op
  · exact ⟨.badSchema, by decide, .inl rfl⟩
  dsimp only
  by_cases hvalid : (!edgeStateKeyValid key) = true
  · exact ⟨.badSchema, by decide, .inl (if_pos hvalid)⟩
  rw [if_neg hvalid]
  have hfields : ReadsFields json ns key op :=
    ⟨by omega, by simpa using hjson, hns, hkey, hop, by simpa using hvalid⟩
  refine ⟨.badSchema, by decide, .inr ?_⟩
  have hop' : op ≠ bytes "delete" := fun h => hdelete ⟨ns, key, h ▸ hfields⟩
  rw [if_neg hop']
  by_cases hother : op ≠ bytes "put"
  · exact if_pos hother
  rw [if_neg hother]
  rcases hvalue : extractRawValue json (EDGE_STATE_VALUE_MAX + 1) with _ | value
  · rfl
  · exact if_pos (by_contra fun hnull => hput ⟨ns, key, value, not_not.mp hother ▸ hfields, hvalue, hnull⟩)

/-- **What a call of `edge_notify_apply` does**: it refuses and changes neither the store nor a queue, or
the payload is read as a put or as a delete that the store accepts and that is broadcast, or as a delete
of a key that is not there. -/
theorem edgeNotifyApply_cases (st : StateStore) (hub : Option EdgeWsHub) (alloc : ℕ → Bool)
    (json : Bytes) :
    let r := edgeNotifyApply st hub alloc json
    let hub' := (notifyRequestId hub json).1
    let rid := (notifyRequestId hub json).2
    (r.2.2 ≠ .ok ∧ r.1 = st ∧ r.2.1.map EdgeWsHub.subs = hub.map EdgeWsHub.subs) ∨
      (∃ ns key value, ReadsPut json ns key value ∧ (edgeStatePut st ns key value).2 = .ok ∧
        r = ((edgeStatePut st ns key value).1,
          broadcastTo hub' alloc ns key (bytes "put") (some value) rid, .ok)) ∨
      (∃ ns key, ReadsFields json ns key (bytes "delete") ∧ (edgeStateDelete st ns key).2 = .ok ∧
        r = ((edgeStateDelete st ns key).1,
          broadcastTo hub' alloc ns key (bytes "delete") none rid, .ok)) ∨
      (∃ ns key, ReadsFields json ns key (bytes "delete") ∧
        (edgeStateDelete st ns key).2 = .notFound ∧ r = (st, hub', .ok)) := by
  intro r hub' rid
  have hrefused : ∀ e, e ≠ EdgeNotifyErr.ok → r = (st, hub, e) ∨ r = (st, hub', e) →
      r.2.2 ≠ .ok ∧ r.1 = st ∧ r.2.1.map EdgeWsHub.subs = hub.map EdgeWsHub.subs := by
    rintro e he (hr | hr) <;> rw [hr]
    · exact ⟨he, rfl, rfl⟩
    · exact ⟨he, rfl, notifyRequestId_subs hub json⟩
  by_cases hput : ∃ ns key value, ReadsPut json ns key value
  · obtain ⟨ns, key, value, hreads⟩ := hput
    have hr : r = _ := edgeNotifyApply_put st hub alloc hreads
    by_cases hok : (edgeStatePut st ns key value).2 = .ok
    · exact .inr (.inl ⟨ns, key, value, hreads, hok, hr.trans (if_pos hok)⟩)
    · rw [if_neg hok, edgeStatePut_of_ne_ok hok] at hr
      exact .inl (hrefused .stateErr (by decide) (.inr hr))
  by_cases hdelete : ∃ ns key, ReadsFields json ns key (bytes "delete")
  · obtain ⟨ns, key, hreads⟩ := hdelete
    have hr : r = _ := edgeNotifyApply_delete st hub alloc hreads
    by_cases hok : (edgeStateDelete st ns key).2 = .ok
    · exact .inr (.inr (.inl ⟨ns, key, hreads, hok, hr.trans (if_pos hok)⟩))
    rw [if_neg hok, edgeStateDelete_of_ne_ok hok] at hr
    by_cases hmissing : (edgeStateDelete st ns key).2 = .notFound
    · exact .inr (.inr (.inr ⟨ns, key, hreads, hmissing, hr.trans (if_pos hmissing)⟩))
    · exact .inl (hrefused .stateErr (by decide) (.inr (hr.trans (if_neg hmissing))))
  · obtain ⟨e, he, hr⟩ := edgeNotifyApply_unread st hub alloc hput hdelete
    exact .inl (hrefused e he hr)

/-- The text search finds a put or a delete and the store takes it. -/
def NotifyTakes (st : StateStore) (json : Bytes) : Prop :=
  (∃ ns key value, ReadsPut json ns key value ∧ (edgeStatePut st ns key value).2 = .ok) ∨
    ∃ ns key, ReadsFields json ns key (bytes "delete") ∧
      ((edgeStateDelete st ns key).2 = .ok ∨ (edgeStateDelete st ns key).2 = .notFound)

theorem edgeNotifyApply_ok_iff (st : StateStore) (hub : Option EdgeWsHub) (alloc : ℕ → Bool)
    (json : Bytes) : (edgeNotifyApply st hub alloc json).2.2 = .ok ↔ NotifyTakes st json := by
  constructor
  · intro hok
    rcases edgeNotifyApply_cases st hub alloc json with
      ⟨hne, -⟩ | ⟨ns, key, value, hreads, hput, -⟩ | ⟨ns, key, hreads, hdel, -⟩ |
      ⟨ns, key, hreads, hdel, -⟩
    · exact absurd hok hne
    · exact .inl ⟨ns, key, value, hreads, hput⟩
    · exact .inr ⟨ns, key, hreads, .inl hdel⟩
    · exact .inr ⟨ns, key, hreads, .inr hdel⟩
  · rintro (⟨ns, key, value, hreads, hput⟩ | ⟨ns, key, hreads, hdel⟩)
    · rw [edgeNotifyApply_put st hub alloc hreads, if_pos hput]
    · rw [edgeNotifyApply_delete st hub alloc hreads]
      rcases hdel with hdel | hdel
      · rw [if_pos hdel]
      · simp [hdel]

/-- **A refused payload changes nothing** but the counter of request ids. -/
theorem edgeNotifyApply_refused (st : StateStore) (hub : Option EdgeWsHub) (alloc : ℕ → Bool)
    (json : Bytes) (h : (edgeNotifyApply st hub alloc json).2.2 ≠ .ok) :
    (edgeNotifyApply st hub alloc json).1 = st ∧
      (edgeNotifyApply st hub alloc json).2.1.map EdgeWsHub.subs = hub.map EdgeWsHub.subs := by
  rcases edgeNotifyApply_cases st hub alloc json with
    ⟨-, hst, hsubs⟩ | ⟨ns, key, value, -, -, hr⟩ | ⟨ns, key, -, -, hr⟩ | ⟨ns, key, -, -, hr⟩
  · exact ⟨hst, hsubs⟩
  all_goals exact absurd (congrArg (fun r => r.2.2) hr) h

/-! ## The schema -/

/-- The schema of a payload: an object with strings for `ns`, `key` and `op`, and a value for a put. -/
def NotifySchema (json : Bytes) : Prop :=
  ∃ ms, jsonParse json = some (.obj ms) ∧ (∃ ns, (bytes "ns", .str ns) ∈ ms) ∧
    (∃ key, (bytes "key", .str key) ∈ ms) ∧
    (((bytes "op", .str (bytes "put")) ∈ ms ∧ ∃ v, (bytes "value", v) ∈ ms) ∨
      (bytes "op", .str (bytes "delete")) ∈ ms)

/-- Only payloads with the schema are accepted, and any other one changes neither the store nor a
queue. -/
def SchemaEnforced (st : StateStore) (hub : Option EdgeWsHub) (alloc : ℕ → Bool) (json : Bytes) :
    Prop :=
  let r := edgeNotifyApply st hub alloc json
  (r.2.2 = .ok → NotifySchema json) ∧
    (¬NotifySchema json →
      r.2.2 ≠ .ok ∧ r.1 = st ∧ r.2.1.map EdgeWsHub.subs = hub.map EdgeWsHub.subs)

end Edgehost
