import Edgehost.Host.StateReplies
import Edgehost.Host.ErrorBodies

/-!
# What a listing holds

The keys of a listing are written to a buffer of 8192 bytes, one after the other while there is room for
a key of any length. The text is closed in any case, so a listing that was cut off is still a JSON object,
of the first keys only.

* `jsonParse_listBody`: a listing is read as the keys that were written.
* `listing_iff`: these are all keys exactly when the others leave room before the last one.
-/

namespace Edgehost

variable {η P υ : Type*}

/-! ## The keys written -/

/-- The keys that are written behind the first one, when `n` bytes stand in the buffer. -/
def listedKeys : ℕ → List Bytes → List Bytes
  | _, [] => []
  | n, key :: keys =>
    if n + EDGE_STATE_KEY_MAX + 4 < 8192 then key :: listedKeys (n + key.length + 3) keys else []

/-- The keys of a listing. -/
def shownKeys : List Bytes → List Bytes
  | [] => []
  | key :: keys => key :: listedKeys (key.length + 11) keys

/-- The buffer has room for any key when all but the last one stand in it. -/
def KeysFit (keys : List Bytes) : Prop := (keys.dropLast.map fun k => k.length + 3).sum + 140 < 8192

theorem listedKeys_subset {n : ℕ} {keys : List Bytes} {k : Bytes} (h : k ∈ listedKeys n keys) :
    k ∈ keys := by
  induction keys generalizing n with
  | nil => exact h
  | cons key keys ih =>
    rw [listedKeys] at h
    split_ifs at h with hroom
    · rcases List.mem_cons.mp h with rfl | h
      · exact List.mem_cons_self
      · exact List.mem_cons_of_mem key (ih h)
    · exact absurd h List.not_mem_nil

theorem shownKeys_subset {keys : List Bytes} {k : Bytes} (h : k ∈ shownKeys keys) : k ∈ keys := by
  cases keys with
  | nil => exact h
  | cons key keys =>
    rcases List.mem_cons.mp h with rfl | h
    · exact List.mem_cons_self
    · exact List.mem_cons_of_mem key (listedKeys_subset h)

/-- Which keys the loop passes to the end. -/
theorem listedKeys_eq_self (n : ℕ) (keys : List Bytes) :
    listedKeys n keys = keys ↔
      keys = [] ∨ n + (keys.dropLast.map fun k => k.length + 3).sum + 132 < 8192 := by
  induction keys generalizing n with
  | nil => exact iff_of_true rfl (Or.inl rfl)
  | cons key keys ih =>
    have hmax : EDGE_STATE_KEY_MAX = 128 := rfl
    rw [listedKeys, or_iff_right (List.cons_ne_nil _ _)]
    by_cases hroom : n + EDGE_STATE_KEY_MAX + 4 < 8192
    · rw [if_pos hroom, List.cons_inj_right, ih]
      rcases keys with _ | ⟨next, keys⟩
      · refine iff_of_true (Or.inl rfl) ?_
        simp only [List.dropLast_singleton, List.map_nil, List.sum_nil]
        omega
      · rw [or_iff_right (List.cons_ne_nil _ _), List.dropLast_cons_of_ne_nil (List.cons_ne_nil _ _)
          (x := key), List.map_cons, List.sum_cons]
        omega
    · rw [if_neg hroom]
      refine iff_of_false (List.cons_ne_nil _ _).symm ?_
      omega

/-- **All keys are written** exactly when they fit. -/
theorem shownKeys_eq_self (keys : List Bytes) : shownKeys keys = keys ↔ KeysFit keys := by
  cases keys with
  | nil => exact iff_of_true rfl (by simp [KeysFit])
  | cons key keys =>
    rw [shownKeys, List.cons_inj_right, listedKeys_eq_self, KeysFit]
    rcases keys with _ | ⟨next, keys⟩
    · exact iff_of_true (Or.inl rfl) (by simp)
    · rw [or_iff_right (List.cons_ne_nil _ _), List.dropLast_cons_of_ne_nil (List.cons_ne_nil _ _)
        (x := key), List.map_cons, List.sum_cons]
      omega

/-! ## The text -/

theorem listKeys_eq (acc : Bytes) (keys : List Bytes) :
    listKeys acc keys = acc ++ (listedKeys acc.length keys).flatMap fun k => comma :: quoted k := by
  induction keys generalizing acc with
  | nil => simp [listKeys, listedKeys]
  | cons key keys ih =>
    rw [listKeys, listedKeys]
    by_cases hroom : acc.length + EDGE_STATE_KEY_MAX + 4 < 8192
    · have hlen : (acc ++ [comma] ++ quoted key).length = acc.length + key.length + 3 := by
        simp only [List.length_append, List.length_singleton, length_quoted]
        omega
      rw [if_pos hroom, if_pos hroom, ih, hlen, List.flatMap_cons, List.append_assoc,
        List.append_assoc]
      rfl
    · rw [if_neg hroom, if_neg hroom, List.flatMap_nil, List.append_nil]

theorem joinNames_cons (key : Bytes) (keys : List Bytes) :
    joinNames (key :: keys) = quoted key ++ keys.flatMap fun k => comma :: quoted k := by
  induction keys generalizing key with
  | nil => simp [joinNames]
  | cons next keys ih =>
    rw [joinNames, ih, List.flatMap_cons]
    · rfl
    · exact List.cons_ne_nil _ _

/-- A listing is always closed. -/
theorem listBody_eq {keys : List Bytes} (hkeys : ∀ k ∈ keys, k.length < EDGE_STATE_KEY_MAX) :
    listBody keys =
      lbrace :: (quoted (bytes "keys") ++
        colon :: (lbracket :: (joinNames (shownKeys keys) ++ [rbracket]) ++ [rbrace])) := by
  cases keys with
  | nil => decide
  | cons key keys =>
    have hkey := hkeys key List.mem_cons_self
    have hfront : bytes "\x7b\"keys\":[" = lbrace :: (quoted (bytes "keys") ++ [colon, lbracket]) := by
      decide
    have hstart : (bytes "\x7b\"keys\":[" ++ quoted key).length = key.length + 11 := by
      rw [hfront, List.length_append, List.length_cons, List.length_append, length_quoted,
        length_quoted]
      simp [bytes]
      omega
    have hend : listingEnd (key.length + 11) keys < 8190 := by
      simp only [EDGE_STATE_KEY_MAX] at hkey
      exact listingEnd_lt (by omega) fun k hk => hkeys k (List.mem_cons_of_mem _ hk)
    rw [listBody, length_listKeys, hstart, if_pos (by omega), listKeys_eq, hstart, shownKeys, joinNames_cons,
      hfront]
    simp only [List.append_assoc, List.cons_append, List.nil_append]
    rfl

/-- **A listing is read as the keys that were written.** -/
theorem jsonParse_listBody {keys : List Bytes} (hvalid : ∀ k ∈ keys, edgeStateKeyValid k = true) :
    jsonParse (listBody keys) = some (.obj [(bytes "keys", .arr ((shownKeys keys).map .str))]) := by
  rw [listBody_eq fun k hk => edgeStateKeyValid_length (hvalid k hk)]
  refine jsonParse_member (by decide) ?_
  by_cases hempty : shownKeys keys = []
  · rw [hempty]
    rfl
  · exact jsonParse_joinNames hempty fun k hk => isPlain_of_keyValid (hvalid k (shownKeys_subset hk))

/-- Which keys are read from a listing. -/
theorem jsonParse_listBody_iff {keys ks : List Bytes}
    (hvalid : ∀ k ∈ keys, edgeStateKeyValid k = true) :
    jsonParse (listBody keys) = some (.obj [(bytes "keys", .arr (ks.map .str))]) ↔
      shownKeys keys = ks := by
  rw [jsonParse_listBody hvalid]
  constructor
  · intro h
    have hobj := List.cons.inj (Json.obj.inj (Option.some.inj h))
    have harr := Json.arr.inj (Prod.mk.inj hobj.1).2
    exact List.map_injective_iff.mpr (fun a b hab => Json.str.inj hab) harr
  · intro h
    rw [h]

/-! ## The reply -/

/-- The keys of a listing of a reached store. -/
theorem ReachedStore.listing {cfg : EdgeStateConfig} {st : StateStore} (h : ReachedStore cfg st)
    {ns pfx : Bytes} {limit : ℕ} {keys : List Bytes}
    (hkeys : edgeStateList st ns pfx limit = some keys) :
    keys.Nodup ∧ ∀ k ∈ keys, edgeStateKeyValid k = true := by
  have hreply := edgeStateList_refines h.wf ns pfx limit
  rw [hkeys] at hreply
  obtain ⟨-, b, hb, -, hlists⟩ := hreply
  refine ⟨hlists.nodup, fun k hk => ?_⟩
  obtain ⟨v, hv⟩ := Finmap.mem_iff.mp (hlists.live k hk).1
  have hentry : st.toMap.entry ns k = some v := by
    rw [StateMap.entry_of_lookup hb, hv]
  exact h.key_valid hentry

/-- An answer is one reply only. -/
theorem replies_unique (s : EdgeHttp1Serve η) (w : ServeWorld P υ) {outCap : ℕ} {status status' : ℤ}
    {reason reason' text text' : Bytes} (hreason : 13 ∉ reason) (hreason' : 13 ∉ reason')
    (h : Replies (answer s w outCap status reason jsonType text) status' reason' text') :
    status' = status ∧ text' = text := by
  obtain ⟨hret, hout⟩ := h
  rw [answer, answerEx] at hret hout
  cases hbuilt : buildResponseEx outCap status reason jsonType [] text with
  | none =>
    rw [hbuilt] at hret
    exact absurd hret (show ¬(-1 : ℤ) = 1 by decide)
  | some out =>
    rw [hbuilt] at hout
    unfold buildResponseEx at hbuilt
    dsimp only at hbuilt hout
    split_ifs at hbuilt
    obtain rfl := Option.some.inj hbuilt
    obtain ⟨hstatus, -, -, htext⟩ :=
      responseHead_inj hreason hreason' cr_not_mem_json cr_not_mem_json hout
    exact ⟨hstatus.symm, htext.symm⟩

/-- **When a listing is complete.** An authorised GET of a listing that succeeds has a body whose keys
are all those that the store lists, in their order and each once, exactly when the keys fit. -/
theorem listing_iff {cfg : EdgeStateConfig} (env : ServeEnv η P υ) {s : EdgeHttp1Serve η}
    {w : ServeWorld P υ} {outCap : ℕ} {p : StatePath} {st : StateStore} {keys : List Bytes}
    {body : Bytes} (hreq : StateGet s p) (hlist : p.isList = true) (hst : w.store = some st)
    (hreached : ReachedStore cfg st) (hkeys : edgeStateList st p.ns p.pfx 64 = some keys)
    (hok : Replies (dispatch env s w outCap) 200 (bytes "OK") body) :
    (jsonParse body = some (.obj [(bytes "keys", .arr (keys.map .str))]) ∧ keys.Nodup) ↔
      KeysFit keys := by
  obtain ⟨hnodup, hvalid⟩ := hreached.listing hkeys
  rw [dispatch_stateGet env hreq hst, stateGetRoute, if_pos hlist, hkeys] at hok
  rw [(replies_unique s w (by decide) (by decide) hok).2, jsonParse_listBody_iff hvalid, and_iff_left hnodup,
    shownKeys_eq_self]

/-! ## Many long keys -/

/-- Sixty-four keys of 127 bytes do not fit. -/
theorem not_keysFit_of_long {keys : List Bytes} (hlen : keys.length = 64)
    (hlong : ∀ k ∈ keys, k.length = 127) : ¬ KeysFit keys := by
  have hsum : (keys.dropLast.map fun k => k.length + 3).sum = 63 * 130 := by
    have hrest : keys.dropLast.map (fun k => k.length + 3) = List.replicate 63 130 := by
      refine List.eq_replicate_iff.mpr ⟨?_, fun n hn => ?_⟩
      · rw [List.length_map, List.length_dropLast, hlen]
      · obtain ⟨k, hk, rfl⟩ := List.mem_map.mp hn
        rw [hlong k (List.mem_of_mem_dropLast hk)]
    rw [hrest]
    decide
  rw [KeysFit, hsum]
  decide

/-- A store that holds the first long keys, and how a listing of it is answered. -/
theorem exists_listing {n : ℕ} (hn : n ≤ 64) : ∃ st ks,
    ReachedStore edgeStateDefaultConfig st ∧
      edgeStateList st (bytes "net.core") [] 64 = some ks ∧ ks.length = n ∧
      (∀ k ∈ ks, k.length = 127) ∧
      Replies (dispatch (getEnv listPath) (getServe listPath) (storeWorld st) 16384) 200 (bytes "OK")
        (listBody ks) := by
  obtain ⟨st, hreached, hholds⟩ := exists_keys_held hn
  have hnodup := nodup_map_longKey n
  have hcount : ((List.range n).map longKey).toFinset.card = n := by
    rw [List.toFinset_card_of_nodup hnodup, List.length_map, List.length_range]
  obtain ⟨ks, hks, hksNodup, hset⟩ :=
    edgeStateList_of_holdsKeys hreached.wf hholds (hcount.le.trans hn)
  have hperm : ks.Perm ((List.range n).map longKey) :=
    List.perm_of_nodup_nodup_toFinset_eq hksNodup hnodup hset
  have hlong : ∀ k ∈ ks, k.length = 127 := fun k hk =>
    length_of_mem_map_longKey hn (hperm.mem_iff.mp hk)
  refine ⟨st, ks, hreached, hks, ?_, hlong, ?_⟩
  · rw [hperm.length_eq, List.length_map, List.length_range]
  · have hshort : ∀ k ∈ ks, k.length < EDGE_STATE_KEY_MAX := fun k hk => by
      rw [hlong k hk]
      decide
    have hsize : (listBody ks).length ≤ 8191 := by
      rw [length_listBody hshort]
      exact listingSize_le hshort
    rw [dispatch_stateGet (getEnv listPath) stateGet_list rfl, stateGetRoute, if_pos rfl]
    dsimp only
    rw [hks]
    refine (answer_replies_iff _ _ (by decide) _ _ _).mpr ?_
    have hdigits := length_decimal_le (n := (listBody ks).length) (k := 4) (by decide) (by omega)
    have hparts : (decimalInt 200).length = 3 ∧ (bytes "OK").length = 2 := by decide
    rw [length_responseHead_json]
    omega

/-- Two long keys are listed as they are. -/
theorem listing_iff_two : ∃ st ks,
    edgeStateList st (bytes "net.core") [] 64 = some ks ∧ ks.length = 2 ∧
      ((jsonParse (listBody ks) = some (.obj [(bytes "keys", .arr (ks.map .str))]) ∧ ks.Nodup) ↔
        KeysFit ks) := by
  obtain ⟨st, ks, hreached, hks, hlen, -, hok⟩ := exists_listing (n := 2) (by decide)
  exact ⟨st, ks, hks, hlen, listing_iff (getEnv listPath) stateGet_list rfl rfl hreached hks hok⟩

/-- With sixty-four long keys the listing lacks the last one. -/
theorem not_listing_long : ∃ (st : StateStore) (ks : List Bytes) (body : Bytes),
    ReachedStore edgeStateDefaultConfig st ∧
      edgeStateList st (bytes "net.core") [] 64 = some ks ∧
      Replies (dispatch (getEnv listPath) (getServe listPath) (storeWorld st) 16384) 200 (bytes "OK")
        body ∧
      jsonParse body ≠ some (.obj [(bytes "keys", .arr (ks.map .str))]) := by
  obtain ⟨st, ks, hreached, hks, hlen, hlong, hok⟩ := exists_listing (n := 64) (by decide)
  obtain ⟨-, hvalid⟩ := hreached.listing hks
  refine ⟨st, ks, listBody ks, hreached, hks, hok, fun hparse => ?_⟩
  rw [jsonParse_listBody_iff hvalid, shownKeys_eq_self] at hparse
  exact not_keysFit_of_long hlen hlong hparse

end Edgehost
