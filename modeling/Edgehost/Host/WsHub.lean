import Edgehost.Common.Json
import Edgehost.Common.RingBuf
import Edgehost.Core.StateMap

/-!
# The stream hub (`ws_stream.c`)

Every connection slot has a ring of at most eight messages. A broadcast formats one `STATE_CHANGED`
text and pushes a copy on the ring of every active subscriber, dropping the oldest message of a full
ring. `alloc i` says whether `malloc` finds memory for the copy of slot `i`. The hub pointer is not NULL
here; a NULL value or request id is `none`.

* `edgeWsFormatStateChanged_eq_some`: what the formatter writes, and when it fits.
* `edgeWsHubBroadcastStateChanged_pending`: what a subscriber finds in its queue after a broadcast.
* `announces_iff`: when the text is the JSON object it is meant to be.
-/

namespace Edgehost

def EDGE_WS_KEY_MAX : ℕ := 64
def EDGE_WS_REQUEST_ID : ℕ := 48
def EDGE_WS_MSG_MAX : ℕ := 4096 + 512
def EDGE_WS_PENDING_MAX : ℕ := 8

/-! ## Messages -/

/-- The message up to the value. -/
def stateChangedHead (ns key op : Bytes) : Bytes :=
  bytes "\x7b\"type\":\"STATE_CHANGED\",\"ns\":\"" ++ ns ++ bytes "\",\"key\":\"" ++ key ++
    bytes "\",\"op\":\"" ++ op ++ bytes "\",\"value\":"

/-- The message from the value on. -/
def stateChangedTail (requestId : Bytes) : Bytes :=
  bytes ",\"request_id\":\"" ++ requestId ++ bytes "\"\x7d"

/-- `edge_ws_format_state_changed`: the text, or `none` for -1. -/
def edgeWsFormatStateChanged (outCap : ℕ) (ns key op : Bytes) (value requestId : Option Bytes) :
    Option Bytes :=
  let requestId := requestId.getD []
  let value := value.getD []
  if outCap < 32 then none
  else if value ≠ [] then
    let head := stateChangedHead ns key op
    if head.length ≥ outCap then none
    -- Room for the tail is estimated before it is written.
    else if head.length + value.length + 40 ≥ outCap then none
    else if head.length + value.length + (stateChangedTail requestId).length ≥ outCap then none
    else some (head ++ value ++ stateChangedTail requestId)
  else
    let text := stateChangedHead ns key op ++ bytes "null" ++ stateChangedTail requestId
    if text.length ≥ outCap then none else some text

/-- The text of a message: a NULL or empty value is written as `null`. -/
def stateChangedText (ns key op : Bytes) (value requestId : Option Bytes) : Bytes :=
  stateChangedHead ns key op ++ (if value.getD [] ≠ [] then value.getD [] else bytes "null") ++
    stateChangedTail (requestId.getD [])

/-- A message fits its buffer, with the room that is kept free behind a value. -/
def StateChangedFits (outCap : ℕ) (ns key op : Bytes) (value requestId : Option Bytes) : Prop :=
  32 ≤ outCap ∧ (stateChangedText ns key op value requestId).length < outCap ∧
    (value.getD [] ≠ [] → (stateChangedHead ns key op).length + (value.getD []).length + 40 < outCap)

instance (outCap : ℕ) (ns key op : Bytes) (value requestId : Option Bytes) :
    Decidable (StateChangedFits outCap ns key op value requestId) :=
  inferInstanceAs (Decidable (_ ∧ _ ∧ (_ → _)))

theorem edgeWsFormatStateChanged_eq_some {outCap : ℕ} {ns key op msg : Bytes}
    {value requestId : Option Bytes} :
    edgeWsFormatStateChanged outCap ns key op value requestId = some msg ↔
      StateChangedFits outCap ns key op value requestId ∧
        msg = stateChangedText ns key op value requestId := by
  unfold edgeWsFormatStateChanged StateChangedFits stateChangedText
  by_cases hvalue : value.getD [] = []
  · simp only [hvalue, ne_eq, not_true_eq_false, if_false, false_imp_iff, and_true,
      Option.ite_none_left_eq_some, Option.some.injEq, not_lt, ge_iff_le, not_le, and_assoc,
      eq_comm (b := msg)]
  · simp only [hvalue, ne_eq, not_false_eq_true, if_true, true_imp_iff,
      Option.ite_none_left_eq_some, Option.some.injEq, not_lt, ge_iff_le, not_le, and_assoc,
      List.length_append, eq_comm (b := msg)]
    constructor
    · rintro ⟨h32, -, hroom, hall, rfl⟩
      exact ⟨h32, hall, hroom, rfl⟩
    · rintro ⟨h32, hall, hroom, rfl⟩
      exact ⟨h32, by omega, hroom, hall, rfl⟩

/-! ## The hub -/

/-- `edge_ws_sub_t`; a cell is the message and its length, or `none` for NULL. -/
structure EdgeWsSub where
  active : Bool
  q : RingBuf (Option Bytes)

/-- `struct edge_ws_hub`. -/
structure EdgeWsHub where
  subs : List EdgeWsSub
  nextRid : UInt64

/-- A subscriber as `calloc` leaves it. -/
def EdgeWsSub.idle : EdgeWsSub where
  active := false
  q := RingBuf.empty (List.replicate EDGE_WS_PENDING_MAX none)

/-- `edge_ws_hub_create`, when its allocations succeed. -/
def edgeWsHubCreate (maxSubs : ℕ) : EdgeWsHub where
  subs := List.replicate (if maxSubs = 0 then 64 else maxSubs) EdgeWsSub.idle
  nextRid := 1

/-- `edge_ws_hub_subscribe`. -/
def edgeWsHubSubscribe (h : EdgeWsHub) (slot : ℤ) : EdgeWsHub × ℤ :=
  if slot < 0 then (h, -1)
  else
    match h.subs[slot.toNat]? with
    | none => (h, -1)
    | some s => ({ h with subs := h.subs.set slot.toNat { s with active := true } }, 0)

/-- `edge_ws_hub_unsubscribe`. -/
def edgeWsHubUnsubscribe (h : EdgeWsHub) (slot : ℤ) : EdgeWsHub :=
  if slot < 0 then h
  else
    match h.subs[slot.toNat]? with
    | none => h
    | some _ => { h with subs := h.subs.set slot.toNat EdgeWsSub.idle }

/-- A nibble as `%x` prints it. -/
def hexChar (n : ℕ) : UInt8 := if n < 10 then UInt8.ofNat (48 + n) else UInt8.ofNat (87 + n)

/-- `%016llx`. -/
def hex16 (n : UInt64) : Bytes :=
  (List.range 16).map fun i => hexChar (n.toNat / 16 ^ (15 - i) % 16)

/-- `edge_ws_hub_mint_request_id`: the text that a buffer of `outSz > 0` bytes holds afterwards. -/
def edgeWsHubMintRequestId (h : Option EdgeWsHub) (prefer : Option Bytes) (outSz : ℕ) :
    Option EdgeWsHub × Bytes :=
  match prefer with
  | some (c :: cs) => (h, snprintf outSz (c :: cs))
  | _ =>
    match h with
    | some h => (some { h with nextRid := h.nextRid + 1 },
        snprintf outSz (bytes "eh" ++ hex16 h.nextRid))
    | none => (none, snprintf outSz (bytes "eh0"))

/-- Drop the oldest message of a full ring. -/
def EdgeWsSub.makeRoom (s : EdgeWsSub) : EdgeWsSub :=
  if s.q.cnt ≥ EDGE_WS_PENDING_MAX then { s with q := (s.q.setFront none).dropFront } else s

/-- `sub_push`. -/
def subPush (s : EdgeWsSub) (msg : Bytes) (alloc : Bool) : EdgeWsSub × ℤ :=
  if !s.active then (s, -1)
  else
    let s := s.makeRoom
    -- The oldest message is gone even if there is no memory for the new one.
    if !alloc then (s, -1) else ({ s with q := s.q.pushBack (some msg) }, 0)

/-- The loop of a broadcast over the slots. -/
def EdgeWsHub.push (h : EdgeWsHub) (msg : Bytes) (alloc : ℕ → Bool) : EdgeWsHub × ℕ :=
  ({ h with subs := h.subs.mapIdx fun i s => (subPush s msg (alloc i)).1 },
    (h.subs.zipIdx.filter fun p => (subPush p.1 msg (alloc p.2)).2 = 0).length)

/-- `edge_ws_hub_broadcast_state_changed`. -/
def edgeWsHubBroadcastStateChanged (h : EdgeWsHub) (alloc : ℕ → Bool) (ns key op : Bytes)
    (value requestId : Option Bytes) : EdgeWsHub × ℕ :=
  match edgeWsFormatStateChanged EDGE_WS_MSG_MAX ns key op value requestId with
  | none => (h, 0)
  | some msg => h.push msg alloc

/-- `edge_ws_hub_take_pending` into a buffer of `outCap > 0` bytes: the return value and the text. -/
def edgeWsHubTakePending (h : EdgeWsHub) (slot : ℤ) (outCap : ℕ) : EdgeWsHub × ℤ × Bytes :=
  if slot < 0 then (h, -1, [])
  else
    match h.subs[slot.toNat]? with
    | none => (h, -1, [])
    | some s =>
      if !s.active || s.q.cnt = 0 then (h, 0, [])
      else
        let msg := (s.q.slots[s.q.head]?.bind id).getD []
        if msg.length + 1 > outCap then (h, -1, [])
        else
          ({ h with subs := h.subs.set slot.toNat { s with q := (s.q.setFront none).dropFront } },
            1, msg)

/-! ## Queues -/

/-- The messages of a subscriber, oldest first. -/
def EdgeWsSub.pending (s : EdgeWsSub) : List Bytes := s.q.contents.filterMap id

/-- The ring of a subscriber is sound and every cell in use holds a message. -/
structure EdgeWsSub.WF (s : EdgeWsSub) : Prop where
  ring : s.q.WF
  cap : s.q.cap = EDGE_WS_PENDING_MAX
  held : ∀ c ∈ s.q.contents, c.isSome

/-- Every ring of the hub is sound. -/
def EdgeWsHub.WF (h : EdgeWsHub) : Prop := ∀ s ∈ h.subs, s.WF

/-- What is left of a queue once there is room for one more message. -/
def dropOldest (q : List Bytes) : List Bytes := if q.length ≥ EDGE_WS_PENDING_MAX then q.tail else q

theorem EdgeWsSub.WF.length_pending {s : EdgeWsSub} (h : s.WF) : s.pending.length = s.q.cnt := by
  rw [← h.ring.length_contents, EdgeWsSub.pending, List.filterMap_length_eq_length]
  exact h.held

/-- A ring whose oldest message is taken out. -/
theorem EdgeWsSub.WF.dropFirst {s : EdgeWsSub} (h : s.WF) (hpos : 0 < s.q.cnt) :
    EdgeWsSub.WF { s with q := (s.q.setFront none).dropFront } ∧
      EdgeWsSub.pending { s with q := (s.q.setFront none).dropFront } = s.pending.tail := by
  have hring := (h.ring.setFront none).dropFront (by simpa using hpos)
  have hcontents : ((s.q.setFront none).dropFront).contents = s.q.contents.tail := by
    rw [(h.ring.setFront none).contents_dropFront (by simpa using hpos),
      h.ring.contents_setFront hpos, List.tail_cons]
  refine ⟨⟨hring, by simpa using h.cap, ?_⟩, ?_⟩
  · rw [hcontents]
    exact fun c hc => h.held c (List.mem_of_mem_tail hc)
  · rw [EdgeWsSub.pending, EdgeWsSub.pending, hcontents]
    rcases hq : s.q.contents with _ | ⟨c, cs⟩
    · rfl
    · obtain ⟨m, rfl⟩ := Option.isSome_iff_exists.mp (h.held c (hq ▸ List.mem_cons_self))
      rfl

/-- The cell that a take reads is the oldest message. -/
theorem EdgeWsSub.WF.head_cell {s : EdgeWsSub} (h : s.WF) {msg : Bytes} {rest : List Bytes}
    (hs : s.pending = msg :: rest) : s.q.slots[s.q.head]? = some (some msg) := by
  have hpos : 0 < s.q.cnt := by
    rw [← h.length_pending, hs]
    exact Nat.succ_pos _
  rw [← h.ring.head?_contents hpos]
  rw [EdgeWsSub.pending] at hs
  rcases hq : s.q.contents with _ | ⟨c, cs⟩
  · rw [hq] at hs
    cases hs
  · obtain ⟨m, rfl⟩ := Option.isSome_iff_exists.mp (h.held c (hq ▸ List.mem_cons_self))
    rw [hq] at hs
    have hcons : m :: cs.filterMap id = msg :: rest := hs
    rw [(List.cons.inj hcons).1]
    rfl

theorem EdgeWsSub.WF.makeRoom {s : EdgeWsSub} (h : s.WF) :
    s.makeRoom.WF ∧ s.makeRoom.q.cnt < EDGE_WS_PENDING_MAX ∧ s.makeRoom.active = s.active ∧
      s.makeRoom.pending = dropOldest s.pending := by
  have hfits := h.ring.fits
  rw [h.cap] at hfits
  by_cases hfull : s.q.cnt ≥ EDGE_WS_PENDING_MAX
  · obtain ⟨hwf, hpending⟩ := h.dropFirst (Nat.lt_of_lt_of_le (by decide) hfull)
    rw [EdgeWsSub.makeRoom, if_pos hfull, dropOldest,
      if_pos (by rw [h.length_pending]; exact hfull)]
    refine ⟨hwf, ?_, rfl, hpending⟩
    have : 0 < EDGE_WS_PENDING_MAX := by decide
    simp only [RingBuf.cnt_dropFront, RingBuf.cnt_setFront]
    omega
  · rw [EdgeWsSub.makeRoom, if_neg hfull]
    exact ⟨h, Nat.lt_of_not_le hfull, rfl,
      by rw [dropOldest, if_neg (by rw [h.length_pending]; exact hfull)]⟩

/-- **A push appends the message**, in the place of the oldest one when the queue is full. -/
theorem EdgeWsSub.WF.subPush {s : EdgeWsSub} (h : s.WF) (msg : Bytes) (alloc : Bool) :
    (subPush s msg alloc).1.WF ∧ (subPush s msg alloc).1.active = s.active ∧
      (subPush s msg alloc).1.pending =
        if s.active then dropOldest s.pending ++ (if alloc then [msg] else []) else s.pending := by
  unfold Edgehost.subPush
  by_cases hactive : s.active
  · obtain ⟨hroom, hcnt, hsame, hpending⟩ := h.makeRoom
    by_cases halloc : alloc
    · have hcnt : s.makeRoom.q.cnt < s.makeRoom.q.cap := by rwa [hroom.cap]
      have hcontents := hroom.ring.contents_pushBack hcnt (some msg)
      simp only [hactive, halloc, Bool.not_true, Bool.false_eq_true, if_false, if_true]
      refine ⟨⟨hroom.ring.pushBack hcnt _, by simpa using hroom.cap, ?_⟩, hsame.trans hactive, ?_⟩
      · rw [hcontents]
        intro c hc
        rcases List.mem_append.mp hc with hc | hc
        · exact hroom.held c hc
        · rw [List.mem_singleton.mp hc]
          rfl
      · rw [EdgeWsSub.pending, hcontents, List.filterMap_append, ← hpending]
        rfl
    · simp only [hactive, halloc, Bool.not_true, Bool.not_false, Bool.false_eq_true, if_false, if_true,
        List.append_nil]
      exact ⟨hroom, hsame.trans hactive, hpending⟩
  · simp only [hactive, Bool.not_false, if_true, Bool.false_eq_true, if_false]
    exact ⟨h, trivial, trivial⟩

/-- **What a take does with its slot.** A message that fits the buffer is handed out and leaves the
ring; otherwise the ring stays as it is. -/
theorem EdgeWsSub.WF.take {h : EdgeWsHub} {slot : ℤ} {s : EdgeWsSub} (hs : s.WF)
    (hget : h.subs[slot.toNat]? = some s) (hpos : ¬ slot < 0) (outCap : ℕ) :
    (((s.active = false ∨ s.pending = []) ∧ edgeWsHubTakePending h slot outCap = (h, 0, [])) ∨
      ∃ msg rest, s.active = true ∧ s.pending = msg :: rest ∧
        (outCap < msg.length + 1 ∧ edgeWsHubTakePending h slot outCap = (h, -1, []) ∨
          msg.length + 1 ≤ outCap ∧ ∃ s' : EdgeWsSub, s'.WF ∧ s'.active = true ∧ s'.pending = rest ∧
            edgeWsHubTakePending h slot outCap
              = ({ h with subs := h.subs.set slot.toNat s' }, 1, msg))) := by
  simp only [edgeWsHubTakePending, if_neg hpos, hget]
  obtain ⟨active, q⟩ := s
  cases active with
  | false => exact .inl ⟨.inl rfl, by simp⟩
  | true =>
    rcases hp : EdgeWsSub.pending ⟨true, q⟩ with _ | ⟨msg, rest⟩
    · have hcnt : q.cnt = 0 := by
        have := hs.length_pending
        rw [hp] at this
        exact this.symm
      exact .inl ⟨.inr rfl, by simp [hcnt]⟩
    · have hcnt : 0 < q.cnt := by
        have := hs.length_pending
        rw [hp] at this
        exact this ▸ Nat.succ_pos _
      have hcell : (q.slots[q.head]?.bind id).getD [] = msg := by
        rw [hs.head_cell hp]
        rfl
      obtain ⟨hwf, htail⟩ := hs.dropFirst hcnt
      rw [hp, List.tail_cons] at htail
      refine .inr ⟨msg, rest, rfl, rfl, ?_⟩
      simp only [hcell, Bool.not_true, Bool.false_or, decide_eq_true_eq, if_neg (Nat.ne_of_gt hcnt)]
      rcases Nat.lt_or_ge outCap (msg.length + 1) with hfit | hfit
      · exact .inl ⟨hfit, if_pos hfit⟩
      · exact .inr ⟨hfit, _, hwf, rfl, htail, if_neg (Nat.not_lt.mpr hfit)⟩

theorem EdgeWsHub.WF.push {h : EdgeWsHub} (hwf : h.WF) (msg : Bytes) (alloc : ℕ → Bool) :
    (h.push msg alloc).1.WF := by
  intro s hs
  obtain ⟨i, hi, rfl⟩ := List.mem_mapIdx.mp hs
  exact ((hwf _ (List.getElem_mem hi)).subPush msg (alloc i)).1

/-- A subscriber of the hub after a push. -/
theorem EdgeWsHub.getElem?_push (h : EdgeWsHub) (msg : Bytes) (alloc : ℕ → Bool) (i : ℕ) :
    (h.push msg alloc).1.subs[i]? = h.subs[i]?.map fun s => (subPush s msg (alloc i)).1 :=
  List.getElem?_mapIdx

/-- The queue of a slot; a slot without a subscriber has none. -/
def EdgeWsHub.queue (h : EdgeWsHub) (i : ℕ) : Option (List Bytes) :=
  (h.subs[i]?.filter fun s => s.active).map EdgeWsSub.pending

/-- A queue that a message went into. -/
def enqueue (msg : Bytes) (q : List Bytes) : List Bytes := dropOldest q ++ [msg]

/-- **What a push does to the queues.** A full queue loses its oldest message, and the new one goes in
where there is memory for it. -/
theorem EdgeWsHub.WF.queue_push_alloc {h : EdgeWsHub} (hwf : h.WF) (msg : Bytes) (alloc : ℕ → Bool)
    (i : ℕ) :
    (h.push msg alloc).1.queue i
      = (h.queue i).map fun q => dropOldest q ++ if alloc i then [msg] else [] := by
  unfold EdgeWsHub.queue
  rw [EdgeWsHub.getElem?_push]
  rcases hs : h.subs[i]? with _ | s
  · rfl
  · obtain ⟨-, hactive, hpending⟩ := (hwf s (List.mem_of_getElem? hs)).subPush msg (alloc i)
    by_cases ha : s.active
    · rw [if_pos ha] at hpending
      simp [Option.filter, hactive, ha, hpending]
    · simp [Option.filter, hactive, ha]

/-- **A push reaches every subscriber.** -/
theorem EdgeWsHub.WF.queue_push {h : EdgeWsHub} (hwf : h.WF) (msg : Bytes) {alloc : ℕ → Bool}
    (halloc : ∀ i, alloc i) (i : ℕ) :
    (h.push msg alloc).1.queue i = (h.queue i).map (enqueue msg) := by
  rw [hwf.queue_push_alloc msg alloc i]
  refine congrArg (Option.map · _) (funext fun q => ?_)
  rw [halloc i, if_pos rfl, enqueue]

/-- **What a subscriber finds in its queue after a broadcast**: the message, if it fits. -/
theorem edgeWsHubBroadcastStateChanged_queue {h : EdgeWsHub} (hwf : h.WF) {alloc : ℕ → Bool}
    (halloc : ∀ i, alloc i) (ns key op : Bytes) (value requestId : Option Bytes) (i : ℕ) :
    (edgeWsHubBroadcastStateChanged h alloc ns key op value requestId).1.queue i
      = if StateChangedFits EDGE_WS_MSG_MAX ns key op value requestId then
          (h.queue i).map (enqueue (stateChangedText ns key op value requestId))
        else h.queue i := by
  unfold edgeWsHubBroadcastStateChanged
  by_cases hfits : StateChangedFits EDGE_WS_MSG_MAX ns key op value requestId
  · rw [if_pos hfits, edgeWsFormatStateChanged_eq_some.mpr ⟨hfits, rfl⟩]
    exact hwf.queue_push _ halloc i
  · have hnone : edgeWsFormatStateChanged EDGE_WS_MSG_MAX ns key op value requestId = none := by
      refine Option.eq_none_iff_forall_ne_some.mpr fun msg hmsg => hfits ?_
      exact (edgeWsFormatStateChanged_eq_some.mp hmsg).1
    rw [if_neg hfits, hnone]

/-! ## The message as JSON -/

/-- The members that a message is meant to have. -/
def stateChangedMembers (ns key op : Bytes) (value : Json) (requestId : Bytes) : List (Bytes × Json) :=
  [(bytes "type", .str (bytes "STATE_CHANGED")), (bytes "ns", .str ns), (bytes "key", .str key),
    (bytes "op", .str op), (bytes "value", value), (bytes "request_id", .str requestId)]

/-- The text is one JSON object with these members, each once. -/
def Announces (text ns key op : Bytes) (value : Json) (requestId : Bytes) : Prop :=
  ∃ ms, jsonParse text = some (.obj ms) ∧
    ms.Perm (stateChangedMembers ns key op value requestId)

/-- The message with the punctuation between its parts. -/
def announcement (ns key op text requestId : Bytes) : Bytes :=
  lbrace :: (quoted (bytes "type") ++ colon :: (quoted (bytes "STATE_CHANGED") ++ comma ::
    (quoted (bytes "ns") ++ colon :: (quoted ns ++ comma ::
      (quoted (bytes "key") ++ colon :: (quoted key ++ comma ::
        (quoted (bytes "op") ++ colon :: (quoted op ++ comma ::
          (quoted (bytes "value") ++ colon :: (text ++ comma ::
            (quoted (bytes "request_id") ++ colon :: (quoted requestId ++ [rbrace]))))))))))))

theorem announcement_eq (ns key op text requestId : Bytes) :
    stateChangedHead ns key op ++ text ++ stateChangedTail requestId
      = announcement ns key op text requestId := by
  simp [announcement, stateChangedHead, stateChangedTail, quoted, bytes, charByte, quoteByte, lbrace,
    rbrace, comma, colon]

/-- The members of a message, as far as its namespace and its request id. -/
private theorem readSep_announcement {ns key op text requestId : Bytes} {v : Json}
    (hkey : key.all isPlain) (hop : op.all isPlain) (hv : jsonParse text = some v) {n m : ℕ}
    (hm : (announcement ns key op text requestId).length < m + 1) (hns : ns.all isPlain) :
    readSep (readMember (readValue (m + 1))) rbrace (n + 4)
        (quoted (bytes "ns") ++ colon :: (quoted ns ++ comma ::
          (quoted (bytes "key") ++ colon :: (quoted key ++ comma ::
            (quoted (bytes "op") ++ colon :: (quoted op ++ comma ::
              (quoted (bytes "value") ++ colon :: (text ++ comma ::
                (quoted (bytes "request_id") ++ colon :: (quoted requestId ++ [rbrace]))))))))))
      = (readSep (readMember (readValue (m + 1))) rbrace n
          (quoted (bytes "request_id") ++ colon :: (quoted requestId ++ [rbrace]))).map fun z =>
            ((bytes "ns", .str ns) :: (bytes "key", .str key) :: (bytes "op", .str op) ::
              (bytes "value", v) :: z.1, z.2) := by
  rw [readSep_str (by decide) hns, skipWs_quoted, readSep_str (by decide) hkey, skipWs_quoted,
    readSep_str (by decide) hop, skipWs_quoted, readSep_text (by decide) hv, skipWs_quoted]
  · simp only [Option.map_map]
    rfl
  · refine Nat.lt_of_le_of_lt ?_ hm
    simp only [announcement, List.length_cons, List.length_append]
    omega

/-- A message is read as an object whose first member is its type. -/
private theorem jsonParse_announcement {ns key op text requestId : Bytes} {w : Json} {m n : ℕ}
    (hm : (announcement ns key op text requestId).length < m + 2) (hn : m = n + 1) :
    jsonParse (announcement ns key op text requestId) = some w ↔
      ∃ z : List (Bytes × Json) × Bytes,
        readSep (readMember (readValue (m + 1))) rbrace (n + 1)
          (quoted (bytes "ns") ++ colon :: (quoted ns ++ comma ::
            (quoted (bytes "key") ++ colon :: (quoted key ++ comma ::
              (quoted (bytes "op") ++ colon :: (quoted op ++ comma ::
                (quoted (bytes "value") ++ colon :: (text ++ comma ::
                  (quoted (bytes "request_id") ++ colon :: (quoted requestId ++ [rbrace])))))))))) =
            some z ∧
        w = .obj ((bytes "type", .str (bytes "STATE_CHANGED")) :: z.1) ∧ skipWs z.2 = [] := by
  rw [jsonParse_eq_some_of_fuel hm]
  unfold announcement
  rw [skipWs_of_not_ws (by decide), readValue_obj, readItems_quoted, hn,
    readSep_str (by decide) (by decide), skipWs_quoted]
  simp only [Option.map_map, Option.map_eq_some_iff, Function.comp_apply, Prod.mk.injEq]
  constructor
  · rintro ⟨r, ⟨z, hz, rfl, rfl⟩, hr⟩
    exact ⟨z, hz, rfl, hr⟩
  · rintro ⟨z, hz, rfl, hr⟩
    exact ⟨z.2, ⟨z, hz, rfl, rfl⟩, hr⟩

/-- **When a message is the object it is meant to be**: exactly when its namespace and its request id
need no escapes. -/
theorem announces_iff {ns key op text requestId : Bytes} {v : Json} (hkey : key.all isPlain)
    (hop : op.all isPlain) (hv : jsonParse text = some v) :
    Announces (announcement ns key op text requestId) ns key op v requestId ↔
      ns.all isPlain ∧ requestId.all isPlain := by
  obtain ⟨m, n, hm, hn⟩ : ∃ m n, (announcement ns key op text requestId).length < m + 1 ∧
      m = n + 5 := ⟨_, (announcement ns key op text requestId).length, by omega, rfl⟩
  have hparse := @jsonParse_announcement ns key op text requestId
  constructor
  · rintro ⟨ms, hms, hperm⟩
    obtain ⟨z, hz, hw, -⟩ := (hparse (by omega) hn).mp hms
    obtain rfl := Json.obj.inj hw
    -- A member that is read is one of the expected ones, so its text is the given one.
    have hmem : ∀ k d, (k, Json.str d) ∈ z.1 →
        (k, Json.str d) ∈ stateChangedMembers ns key op v requestId := fun k d h =>
      hperm.subset (List.mem_cons_of_mem _ h)
    obtain ⟨d, r, hd, hdz⟩ := readSep_head_str (by decide) hz
    have hdns : d = ns := by
      have := hmem _ _ hdz
      simpa [stateChangedMembers, bytes, charByte] using this
    obtain ⟨hns, -⟩ := readString_splice (hdns ▸ hd) fun b hb => by
      rw [quoted_append, strBody_cons (by decide) (by decide), strBody_quote] at hb
      obtain ⟨rfl, -⟩ := Prod.mk.inj (Option.some.inj hb)
      exact ⟨[], comma, rfl, (by decide : [comma].all isPlain)⟩
    refine ⟨hns, ?_⟩
    rw [readSep_announcement hkey hop hv hm hns, Option.map_eq_some_iff] at hz
    obtain ⟨z', hz', rfl⟩ := hz
    obtain ⟨d', r', hd', hdz'⟩ := readSep_head_str (by decide) hz'
    have hdrid : d' = requestId := by
      have := hmem _ _ (by simp [hdz'] : (bytes "request_id", Json.str d') ∈ _)
      simpa [stateChangedMembers, bytes, charByte] using this
    exact (readString_splice (hdrid ▸ hd') fun b hb => by cases hb).1
  · rintro ⟨hns, hrid⟩
    refine ⟨stateChangedMembers ns key op v requestId, ?_, .refl _⟩
    refine (hparse (by omega) hn).mpr ⟨(_, []), ?_, rfl, rfl⟩
    have hread := readMember_quoted (k := bytes "request_id") (by decide) m requestId [rbrace]
    rw [readString_plain hrid] at hread
    rw [readSep_announcement hkey hop hv hm hns, readSep_last hread (t := []) rfl (by decide)]
    rfl

/-! ## Messages of accepted writes -/

theorem isPlain_of_keyByteOk {c : UInt8} (h : keyByteOk c) : isPlain c :=
  forall_byte (P := fun c => keyByteOk c → isPlain c) (by decide +kernel) c h

/-- A valid key needs no escapes. -/
theorem isPlain_of_keyValid {key : Bytes} (h : edgeStateKeyValid key) : key.all isPlain := by
  simp only [edgeStateKeyValid, Bool.if_false_left, Bool.and_eq_true] at h
  exact List.all_eq_true.mpr fun c hc => isPlain_of_keyByteOk (List.all_eq_true.mp h.2.2 c hc)

/-- What a put that is accepted says about its key and its value. -/
theorem edgeStatePut_ok_args {st : StateStore} {ns key value : Bytes}
    (h : (edgeStatePut st ns key value).2 = .ok) :
    edgeStateKeyValid key ∧ edgeStateJsonOk value ∧ value.length ≤ st.maxValue := by
  unfold edgeStatePut at h
  split at h
  · cases h
  · split_ifs at h with henabled hkey hlen hjson
    exact ⟨by simpa using hkey, by simpa using hjson, Nat.le_of_not_gt hlen⟩

/-- The text is the announcement of this write: one JSON object whose value is the stored one, or null
after a delete. -/
def AnnouncesWrite (text ns key op : Bytes) (value : Option Bytes) (requestId : Bytes) : Prop :=
  ∃ v, jsonParse (value.getD (bytes "null")) = some v ∧ Announces text ns key op v requestId

theorem stateChangedText_eq {ns key op requestId : Bytes} {value : Option Bytes}
    (hvalue : value ≠ some []) : stateChangedText ns key op value (some requestId)
      = announcement ns key op (value.getD (bytes "null")) requestId := by
  rw [← announcement_eq, stateChangedText]
  rcases value with _ | _ | ⟨c, cs⟩
  · rfl
  · exact absurd rfl hvalue
  · rfl

/-- **When the stream announces a write as JSON.** For every accepted put of a value, and for the delete
of the same key, every subscriber finds the same text last in its queue. That text announces the write
exactly when the namespace and the request id need no escapes and the value is a JSON text. -/
theorem stateChanged_announced_iff (st : StateStore) (ns key value requestId : Bytes)
    (hput : (edgeStatePut st ns key value).2 = .ok) (op : Bytes) (sent : Option Bytes)
    (hop : op = bytes "put" ∧ sent = some value ∨ op = bytes "delete" ∧ sent = none)
    (hfits : StateChangedFits EDGE_WS_MSG_MAX ns key op sent (some requestId)) :
    let text := stateChangedText ns key op sent (some requestId)
    (∀ (h : EdgeWsHub) (alloc : ℕ → Bool), h.WF → (∀ i, alloc i) → ∀ i,
        (edgeWsHubBroadcastStateChanged h alloc ns key op sent (some requestId)).1.queue i
          = (h.queue i).map (enqueue text)) ∧
      (AnnouncesWrite text ns key op sent requestId ↔
        ns.all isPlain ∧ requestId.all isPlain ∧ (jsonParse (sent.getD (bytes "null"))).isSome) := by
  obtain ⟨hkey, hjson, -⟩ := edgeStatePut_ok_args hput
  have hkey := isPlain_of_keyValid hkey
  have hplain : op.all isPlain := by
    rcases hop with ⟨rfl, -⟩ | ⟨rfl, -⟩ <;> decide
  have hsent : sent ≠ some [] := by
    rcases hop with ⟨-, rfl⟩ | ⟨-, rfl⟩
    · rintro hnil
      rw [Option.some.inj hnil] at hjson
      cases hjson
    · simp
  refine ⟨fun h alloc hwf halloc i => ?_, ?_⟩
  · rw [edgeWsHubBroadcastStateChanged_queue hwf halloc, if_pos hfits]
  · rw [stateChangedText_eq hsent]
    constructor
    · rintro ⟨v, hv, h⟩
      obtain ⟨hns, hrid⟩ := (announces_iff hkey hplain hv).mp h
      exact ⟨hns, hrid, by rw [hv]; rfl⟩
    · rintro ⟨hns, hrid, hv⟩
      obtain ⟨v, hv⟩ := Option.isSome_iff_exists.mp hv
      exact ⟨v, hv, (announces_iff hkey hplain hv).mpr ⟨hns, hrid⟩⟩

/-- A store with room for one short value. -/
def smallStore : StateStore := edgeStateCreateWithConfig { maxKeysPerNs := 1, maxValueBytes := 16 }

theorem stateChanged_announced_door :
    AnnouncesWrite (stateChangedText (bytes "net.core") (bytes "door") (bytes "put")
      (some (bytes "\"open\"")) (some (bytes "r1"))) (bytes "net.core") (bytes "door")
      (bytes "put") (some (bytes "\"open\"")) (bytes "r1") :=
  (stateChanged_announced_iff smallStore (bytes "net.core") (bytes "door") (bytes "\"open\"")
    (bytes "r1") (by decide +kernel) (bytes "put") (some (bytes "\"open\"")) (.inl ⟨rfl, rfl⟩)
    (by decide +kernel)).2.mpr ⟨by decide, by decide, by decide +kernel⟩

/-- A request id with a quote breaks the message. -/
theorem not_stateChanged_announced_quote :
    (edgeStatePut smallStore (bytes "net.core") (bytes "door") (bytes "\"open\"")).2 = .ok ∧
      StateChangedFits EDGE_WS_MSG_MAX (bytes "net.core") (bytes "door") (bytes "put")
        (some (bytes "\"open\"")) (some (bytes "a\"b")) ∧
      ¬ AnnouncesWrite (stateChangedText (bytes "net.core") (bytes "door") (bytes "put")
        (some (bytes "\"open\"")) (some (bytes "a\"b"))) (bytes "net.core") (bytes "door")
        (bytes "put") (some (bytes "\"open\"")) (bytes "a\"b") := by
  refine ⟨by decide +kernel, by decide +kernel, fun ⟨v, hv, h⟩ => ?_⟩
  rw [stateChangedText_eq (by decide), announces_iff (by decide) (by decide) hv] at h
  exact absurd h.2 (by decide)

end Edgehost
