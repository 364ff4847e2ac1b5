import Edgehost.Common.TextSearch
import Edgehost.Host.Http1Serve

/-!
# The paths of the state API

`/api/v1/state/{ns}/{key}` and `/api/v1/state/{ns}`, each perhaps with a query. For a listing the query is
searched for the text `prefix=`, which also stands in `xprefix=` and may stand in a value.

* `queryPrefix_queryText`: what the search finds.
* `pathIsState_iff`: when this is the parameter.
-/

namespace Edgehost

/-- A parameter of a query. -/
structure QueryPair where
  name : Bytes
  value : Bytes
  name_noEq : charByte '=' ∉ name
  name_noAmp : charByte '&' ∉ name
  value_noAmp : charByte '&' ∉ value
  value_short : value.length < 128

/-- The text of a parameter. -/
def QueryPair.text (q : QueryPair) : Bytes := q.name ++ charByte '=' :: q.value

/-- The text of a query. -/
def queryText (qs : List QueryPair) : Bytes := List.intercalate [charByte '&'] (qs.map QueryPair.text)

/-- The value of the parameter `prefix`, or nothing without one. -/
def prefixParam (qs : List QueryPair) : Bytes :=
  ((qs.find? (·.name = bytes "prefix")).map QueryPair.value).getD []

/-- What stands behind the first `prefix=` in the text of a parameter. -/
def QueryPair.behindPrefix (q : QueryPair) : Option Bytes :=
  if bytes "prefix" <:+ q.name then some q.value
  else (strstr q.value (bytes "prefix=")).map (List.drop 7)

/-- The first parameter with `prefix=` in its text is called `prefix`, or else what stands behind this text
happens to be the value of the parameter. -/
def PrefixFirst (qs : List QueryPair) : Prop :=
  ∀ q, qs.find? (·.behindPrefix.isSome) = some q →
    q.name = bytes "prefix" ∨ q.behindPrefix = some (prefixParam qs)

/-! ## The search -/

theorem prefixEq_eq : bytes "prefix=" = bytes "prefix" ++ [charByte '='] := by decide

/-- The search in one parameter. -/
theorem strstr_text (q : QueryPair) :
    (strstr q.text (bytes "prefix=")).map (List.drop 7) = q.behindPrefix := by
  rw [QueryPair.text, QueryPair.behindPrefix, prefixEq_eq,
    strstr_name_sep (by decide) (by decide) q.name_noEq]
  split_ifs
  · rfl
  · rfl

theorem queryText_cons_cons (q q' : QueryPair) (qs : List QueryPair) :
    queryText (q :: q' :: qs) = q.text ++ charByte '&' :: queryText (q' :: qs) := by
  rw [queryText, List.map_cons, List.map_cons, List.intercalate_cons_cons, List.append_assoc]
  rfl

/-- What stands behind `prefix=` holds no `&`, and is as short as the value. -/
theorem behindPrefix_eq_some {q : QueryPair} {v : Bytes} (h : q.behindPrefix = some v) :
    v <:+ q.value := by
  rw [QueryPair.behindPrefix] at h
  split_ifs at h
  · obtain rfl := Option.some.inj h
    exact List.suffix_rfl
  · obtain ⟨t, ht, rfl⟩ := Option.map_eq_some_iff.mp h
    exact (List.drop_suffix 7 t).trans (strstr_eq_some ht).2

/-- The search in a query, up to the next `&`. -/
theorem strstr_queryText (qs : List QueryPair) :
    (strstr (queryText qs) (bytes "prefix=")).map
        (fun t => (t.drop 7).takeWhile (· ≠ charByte '&')) =
      (qs.find? (·.behindPrefix.isSome)).bind QueryPair.behindPrefix := by
  have hcut : ∀ (q : QueryPair) (v : Bytes), q.behindPrefix = some v → charByte '&' ∉ v :=
    fun q v hv hmem => q.value_noAmp ((behindPrefix_eq_some hv).mem hmem)
  induction qs with
  | nil => decide
  | cons q qs ih =>
    have hq := strstr_text q
    rcases qs with _ | ⟨q', qs⟩
    · have htext : queryText [q] = q.text := by
        rw [queryText, List.map_cons, List.map_nil, List.intercalate_singleton]
      rw [htext]
      rcases hfound : strstr q.text (bytes "prefix=") with _ | t
      · rw [hfound] at hq
        rw [List.find?_cons_of_neg (by rw [← hq]; decide)]
        rfl
      · rw [hfound] at hq
        rw [List.find?_cons_of_pos (by rw [← hq]; rfl), Option.bind_some, ← hq, Option.map_some,
          Option.map_some, takeWhile_ne_of_not_mem (hcut q _ hq.symm)]
    · rw [queryText_cons_cons, strstr_append_sep (by decide) (by decide)]
      rcases hfound : strstr q.text (bytes "prefix=") with _ | t
      · rw [hfound] at hq
        rw [List.find?_cons_of_neg (by rw [← hq]; decide)]
        exact ih
      · rw [hfound] at hq
        have hlen : 7 ≤ t.length := (strstr_eq_some hfound).1.length_le
        rw [List.find?_cons_of_pos (by rw [← hq]; rfl), Option.bind_some, ← hq, Option.map_some,
          Option.map_some, List.drop_append_of_le_length hlen,
          takeWhile_ne_append (hcut q _ hq.symm) (Or.inr ⟨_, rfl⟩)]

/-- **What the search finds** in a path with a query. -/
theorem queryPrefix_queryText {front : Bytes} (hfront : charByte '?' ∉ front) (qs : List QueryPair) :
    queryPrefix (front ++ charByte '?' :: queryText qs) =
      ((qs.find? (·.behindPrefix.isSome)).bind QueryPair.behindPrefix).getD [] := by
  have hskip : ¬ bytes "prefix=" <+: charByte '?' :: queryText qs := by
    rintro ⟨t, ht⟩
    exact absurd (List.cons.inj ht).1 (by decide)
  rw [queryPrefix, strchr_append hfront, strchr_cons_self, Option.bind_some, strstr_skip hskip,
    ← strstr_queryText]
  rcases hfound : strstr (queryText qs) (bytes "prefix=") with _ | t
  · rfl
  · have hval := strstr_queryText qs
    rw [hfound, Option.map_some] at hval
    obtain ⟨q, -, hq⟩ := Option.bind_eq_some_iff.mp hval.symm
    have hshort := (behindPrefix_eq_some hq).length_le.trans_lt q.value_short
    rw [Option.map_some, Option.getD_some]
    exact List.take_of_length_le (Nat.le_of_lt_succ hshort)

/-- **When the search finds the parameter.** -/
theorem behindPrefix_getD_iff (qs : List QueryPair) :
    ((qs.find? (·.behindPrefix.isSome)).bind QueryPair.behindPrefix).getD [] = prefixParam qs ↔
      PrefixFirst qs := by
  rcases hfind : qs.find? (·.behindPrefix.isSome) with _ | q
  · have hnone : qs.find? (·.name = bytes "prefix") = none := by
      refine List.find?_eq_none.mpr fun q hq hname => ?_
      refine absurd (List.find?_eq_none.mp hfind q hq) (not_not.mpr ?_)
      rw [QueryPair.behindPrefix, if_pos (by rw [of_decide_eq_true hname])]
      rfl
    refine iff_of_true ?_ fun q hq => ?_
    · rw [hfind, prefixParam, hnone]
      rfl
    · rw [hfind] at hq
      cases hq
  · obtain ⟨hsome, before, after, rfl, hbefore⟩ := List.find?_eq_some_iff_append.mp hfind
    obtain ⟨v, hv⟩ := Option.isSome_iff_exists.mp hsome
    rw [hfind, Option.bind_some, hv, Option.getD_some]
    constructor
    · rintro rfl q' hq'
      rw [hfind] at hq'
      obtain rfl := Option.some.inj hq'
      exact Or.inr hv
    · intro hfirst
      rcases hfirst q hfind with hname | hfound
      · -- no parameter before it is called `prefix`, since it would have been found
        have hnone : before.find? (·.name = bytes "prefix") = none := by
          refine List.find?_eq_none.mpr fun q' hq' hname' => ?_
          have hmiss := hbefore q' hq'
          rw [QueryPair.behindPrefix, if_pos (by rw [of_decide_eq_true hname'])] at hmiss
          cases hmiss
        have hvalue : v = q.value := by
          rw [QueryPair.behindPrefix, if_pos (by rw [hname])] at hv
          exact (Option.some.inj hv).symm
        have hhere : (q :: after).find? (·.name = bytes "prefix") = some q :=
          List.find?_cons_of_pos (decide_eq_true hname)
        rw [prefixParam, List.find?_append, hnone, Option.none_or, hhere, hvalue]
        rfl
      · exact Option.some.inj (hv.symm.trans hfound)

/-! ## The path -/

/-- A name of a namespace, as a path can have one. -/
structure NsName where
  text : Bytes
  length_pos : 1 ≤ text.length
  length_le : text.length ≤ 63
  noSlash : slash ∉ text
  noQuery : charByte '?' ∉ text

/-- A key, as a path can have one. -/
structure KeyName where
  text : Bytes
  length_pos : 1 ≤ text.length
  length_le : text.length ≤ 127
  noQuery : charByte '?' ∉ text

/-- The path of a namespace. -/
def nsPath (ns : NsName) : Bytes := bytes "/api/v1/state/" ++ ns.text

/-- The path of a key. -/
def keyPath (ns : NsName) (key : KeyName) : Bytes := nsPath ns ++ slash :: key.text

/-- A path with a query. -/
def withQuery (path : Bytes) (qs : List QueryPair) : Bytes := path ++ charByte '?' :: queryText qs

/-- Up to the query a path is what stands before it. -/
theorem pathIsState_eq {p : Bytes} (hquery : charByte '?' ∉ p) (hshort : p.length < 512) {tail : Bytes}
    (htail : tail = [] ∨ ∃ t, tail = charByte '?' :: t) :
    pathIsState (bytes "/api/v1/state/" ++ p ++ tail) =
      if p.takeWhile (· ≠ slash) = [] ∨ (p.takeWhile (· ≠ slash)).length ≥ 64 then none
      else
        match strchr p slash with
        | none => some ⟨p.takeWhile (· ≠ slash), [], queryPrefix (p ++ tail), true⟩
        | some k =>
          if k.drop 1 = [] ∨ (k.drop 1).length ≥ EDGE_STATE_KEY_MAX then none
          else some ⟨p.takeWhile (· ≠ slash), k.drop 1, [], false⟩ := by
  have hfront : (bytes "/api/v1/state/").isPrefixOf (bytes "/api/v1/state/" ++ p ++ tail) = true :=
    List.isPrefixOf_iff_prefix.mpr (by rw [List.append_assoc]; exact List.prefix_append _ _)
  have hdrop : (bytes "/api/v1/state/" ++ p ++ tail).drop 14 = p ++ tail := by
    rw [List.append_assoc]
    exact List.drop_left' (by decide)
  have hcut : (p ++ tail).takeWhile (· ≠ charByte '?') = p := takeWhile_ne_append hquery htail
  rw [pathIsState, if_neg (by rw [hfront]; decide)]
  dsimp only
  rw [hdrop, hcut]
  exact if_neg (by omega)

/-- **The path of a key**, with a query or without one. -/
theorem pathIsState_key (ns : NsName) (key : KeyName) {tail : Bytes}
    (htail : tail = [] ∨ ∃ t, tail = charByte '?' :: t) :
    pathIsState (keyPath ns key ++ tail) = some ⟨ns.text, key.text, [], false⟩ := by
  have hquery : charByte '?' ∉ ns.text ++ slash :: key.text := by
    intro h
    rcases List.mem_append.mp h with h | h
    · exact ns.noQuery h
    · rcases List.mem_cons.mp h with h | h
      · exact absurd h (by decide)
      · exact key.noQuery h
  have hlen : (ns.text ++ slash :: key.text).length < 512 := by
    have := ns.length_le
    have := key.length_le
    rw [List.length_append, List.length_cons]
    omega
  have hfirst : (ns.text ++ slash :: key.text).takeWhile (· ≠ slash) = ns.text :=
    takeWhile_ne_append ns.noSlash (Or.inr ⟨key.text, rfl⟩)
  have hpath := pathIsState_eq hquery hlen htail
  have hnsLen := ns.length_le
  have hkeyLen := key.length_le
  have hnsNe : ns.text ≠ [] := List.length_pos_iff.mp ns.length_pos
  have hkeyNe : key.text ≠ [] := List.length_pos_iff.mp key.length_pos
  have hmax : EDGE_STATE_KEY_MAX = 128 := rfl
  rw [hfirst, if_neg (not_or.mpr ⟨hnsNe, by omega⟩), strchr_append ns.noSlash, strchr_cons_self] at hpath
  dsimp only at hpath
  rw [show (slash :: key.text).drop 1 = key.text from rfl, if_neg (not_or.mpr ⟨hkeyNe, by omega⟩)] at hpath
  rw [keyPath, nsPath, List.append_assoc (bytes "/api/v1/state/")]
  exact hpath

/-- **The path of a listing** with a query. -/
theorem pathIsState_list (ns : NsName) (qs : List QueryPair) :
    pathIsState (withQuery (nsPath ns) qs) =
      some ⟨ns.text, [], ((qs.find? (·.behindPrefix.isSome)).bind QueryPair.behindPrefix).getD [],
        true⟩ := by
  have hns : ns.text.takeWhile (· ≠ slash) = ns.text := takeWhile_ne_of_not_mem ns.noSlash
  have hnsLen := ns.length_le
  have hnsNe : ns.text ≠ [] := List.length_pos_iff.mp ns.length_pos
  rw [withQuery, nsPath, pathIsState_eq ns.noQuery (by omega) (Or.inr ⟨_, rfl⟩), hns,
    if_neg (not_or.mpr ⟨hnsNe, by omega⟩), strchr_eq_none.mpr ns.noSlash]
  dsimp only
  rw [queryPrefix_queryText ns.noQuery]

/-- **When the paths are read as they are meant.** Those of keys always are; that of a listing is when the
first parameter with the text `prefix=` in it is the parameter of that name. -/
theorem pathIsState_iff (ns : NsName) (key : KeyName) (qs : List QueryPair) :
    (pathIsState (keyPath ns key) = some ⟨ns.text, key.text, [], false⟩ ∧
      pathIsState (withQuery (keyPath ns key) qs) = some ⟨ns.text, key.text, [], false⟩ ∧
      pathIsState (withQuery (nsPath ns) qs) = some ⟨ns.text, [], prefixParam qs, true⟩) ↔
    PrefixFirst qs := by
  have hplain := pathIsState_key ns key (Or.inl (Eq.refl []))
  have hquery := pathIsState_key ns key (Or.inr ⟨queryText qs, rfl⟩)
  rw [List.append_nil] at hplain
  rw [and_iff_right hplain, withQuery, and_iff_right hquery, pathIsState_list,
    ← behindPrefix_getD_iff]
  constructor
  · intro h
    exact congrArg StatePath.pfx (Option.some.inj h)
  · intro h
    rw [h]

def coreNs : NsName := ⟨bytes "net.core", by decide, by decide, by decide, by decide⟩

def doorKey : KeyName := ⟨bytes "door", by decide, by decide, by decide⟩

/-- The query `prefix=do`. -/
def prefixPair : QueryPair :=
  ⟨bytes "prefix", bytes "do", by decide, by decide, by decide, by decide⟩

theorem pathIsState_door :
    pathIsState (keyPath coreNs doorKey) = some ⟨bytes "net.core", bytes "door", [], false⟩ ∧
      pathIsState (withQuery (keyPath coreNs doorKey) [prefixPair])
        = some ⟨bytes "net.core", bytes "door", [], false⟩ ∧
      pathIsState (withQuery (nsPath coreNs) [prefixPair])
        = some ⟨bytes "net.core", [], bytes "do", true⟩ := by
  refine (pathIsState_iff coreNs doorKey [prefixPair]).mpr fun q hq => .inl ?_
  obtain rfl := List.mem_singleton.mp (List.mem_of_find?_eq_some hq)
  rfl

/-- The query `xprefix=a`, which has no parameter `prefix`. -/
def xprefixPair : QueryPair :=
  ⟨bytes "xprefix", bytes "a", by decide, by decide, by decide, by decide⟩

/-- A listing with this query is one of the keys under `a`. -/
theorem pathIsState_xprefix :
    pathIsState (withQuery (nsPath coreNs) [xprefixPair]) =
        some ⟨bytes "net.core", [], bytes "a", true⟩ ∧
      pathIsState (withQuery (nsPath coreNs) [xprefixPair]) ≠
        some ⟨coreNs.text, [], prefixParam [xprefixPair], true⟩ := by
  have hread : pathIsState (withQuery (nsPath coreNs) [xprefixPair]) =
      some ⟨bytes "net.core", [], bytes "a", true⟩ := by decide +kernel
  refine ⟨hread, ?_⟩
  rw [hread]
  decide

end Edgehost
