import Edgehost.Core.StateMap

/-!
# Runs of the state store

`StateRun` follows one store through a sequence of operations and logs each with its reply.
`lastPut` reads the log alone: the value that was last put under a key and not deleted since.
`StateRun.refinesMap` is the contract of the store in every reachable state.
-/

namespace Edgehost

/-- The operations on a store. `alloc` says whether a registration finds memory. -/
inductive StateOp
  | put (ns key value : Bytes)
  | get (ns key : Bytes) (outCap : ℕ)
  | delete (ns key : Bytes)
  | list (ns pfx : Bytes) (maxKeys : ℕ)
  | setEnabled (ns : Bytes) (enabled alloc : Bool)
  | applyConfig (cfg : EdgeConfig) (alloc : Bytes → Bool)

/-- What an operation returns. -/
inductive StateReply
  | status (err : EdgeStateErr)
  | value (res : Except EdgeStateErr (Bytes × ℕ))
  | keys (res : Option (List Bytes))
  | rc (code : ℤ)
  | done

/-- The reply reports an error. -/
def StateReply.IsError : StateReply → Prop
  | .status err => err ≠ .ok
  | .value (.error _) => True
  | .keys none => True
  | .rc code => code ≠ 0
  | _ => False

/-- Run one operation. -/
def StateOp.apply (st : StateStore) : StateOp → StateStore × StateReply
  | .put ns key value =>
    ((edgeStatePut st ns key value).1, .status (edgeStatePut st ns key value).2)
  | .get ns key outCap => (st, .value (edgeStateGet st ns key outCap))
  | .delete ns key => ((edgeStateDelete st ns key).1, .status (edgeStateDelete st ns key).2)
  | .list ns pfx maxKeys => (st, .keys (edgeStateList st ns pfx maxKeys))
  | .setEnabled ns enabled alloc =>
    ((edgeStateNsSetEnabled st ns enabled alloc).1, .rc (edgeStateNsSetEnabled st ns enabled alloc).2)
  | .applyConfig cfg alloc => (edgeStateApplyConfig st cfg alloc, .done)

/-- What one operation does to the map, and what it may reply. -/
inductive StateMap.Step (lim : StateLimits) (m : StateMap) : StateOp → StateMap → StateReply → Prop
  | put (ns key value : Bytes) :
      Step lim m (.put ns key value) (m.put lim ns key value).1
        (.status (m.put lim ns key value).2)
  | get (ns key : Bytes) (outCap : ℕ) (res : Except EdgeStateErr (Bytes × ℕ))
      (hres : match m.get ns key with
        | .error e => res = .error e
        | .ok v => v.length < outCap → res = .ok (v, v.length)) :
      Step lim m (.get ns key outCap) m (.value res)
  | delete (ns key : Bytes) :
      Step lim m (.delete ns key) (m.delete ns key).1 (.status (m.delete ns key).2)
  | list (ns pfx : Bytes) (maxKeys : ℕ) (res : Option (List Bytes))
      (hres : m.ListReply ns pfx maxKeys res) : Step lim m (.list ns pfx maxKeys) m (.keys res)
  | setEnabled (ns : Bytes) (enabled alloc : Bool) :
      Step lim m (.setEnabled ns enabled alloc) (m.setEnabled ns enabled alloc).1
        (.rc (m.setEnabled ns enabled alloc).2)
  | applyConfig (cfg : EdgeConfig) (alloc : Bytes → Bool) :
      Step lim m (.applyConfig cfg alloc) (m.applyConfig cfg alloc) .done

/-- **Every operation of a well-formed store does what the map does.** -/
theorem StateOp.refines {st : StateStore} (hwf : st.WF) (op : StateOp) :
    (op.apply st).1.WF ∧ (op.apply st).1.limits = st.limits ∧
      StateMap.Step st.limits st.toMap op (op.apply st).1.toMap (op.apply st).2 := by
  cases op with
  | put ns key value =>
    have h := edgeStatePut_refines hwf ns key value
    refine ⟨h.wf, h.limits, ?_⟩
    simp only [apply, h.toMap, h.ret]
    exact .put ns key value
  | get ns key outCap =>
    exact ⟨hwf, rfl, .get ns key outCap _ (edgeStateGet_refines hwf ns key outCap)⟩
  | delete ns key =>
    have h := edgeStateDelete_refines hwf ns key
    refine ⟨h.wf, h.limits, ?_⟩
    simp only [apply, h.toMap, h.ret]
    exact .delete ns key
  | list ns pfx maxKeys =>
    exact ⟨hwf, rfl, .list ns pfx maxKeys _ (edgeStateList_refines hwf ns pfx maxKeys)⟩
  | setEnabled ns enabled alloc =>
    have h := edgeStateNsSetEnabled_refines hwf ns enabled alloc
    refine ⟨h.wf, h.limits, ?_⟩
    simp only [apply, h.toMap, h.ret]
    exact .setEnabled ns enabled alloc
  | applyConfig cfg alloc =>
    have h := edgeStateApplyConfig_refines hwf cfg alloc
    refine ⟨h.wf, h.limits, ?_⟩
    simp only [apply, h.toMap]
    exact .applyConfig cfg alloc

/-! ## Entries and flags under one operation -/

namespace StateMap

variable {m : StateMap}

theorem entry_insert (m : StateMap) (ns : Bytes) (b : Bucket) (ns' key : Bytes) :
    entry (m.insert ns b) ns' key = if ns = ns' then b.entries.lookup key else m.entry ns' key := by
  by_cases h : ns = ns'
  · subst h
    simp [entry, Finmap.lookup_insert]
  · simp [entry, Finmap.lookup_insert_of_ne _ (Ne.symm h), h]

theorem flag_insert (m : StateMap) (ns : Bytes) (b : Bucket) (ns' : Bytes) :
    flag (m.insert ns b) ns' = if ns = ns' then some b.enabled else m.flag ns' := by
  by_cases h : ns = ns'
  · subst h
    simp [flag, Finmap.lookup_insert]
  · simp [flag, Finmap.lookup_insert_of_ne _ (Ne.symm h), h]

theorem entry_of_lookup {ns : Bytes} {b : Bucket} (h : m.lookup ns = some b) (key : Bytes) :
    m.entry ns key = b.entries.lookup key := by
  simp [entry, h]

theorem flag_of_lookup {ns : Bytes} {b : Bucket} (h : m.lookup ns = some b) :
    m.flag ns = some b.enabled := by
  simp [flag, h]

/-- A put is refused, or inserts into an enabled namespace. -/
theorem put_cases (m : StateMap) (lim : StateLimits) (ns key value : Bytes) :
    (∃ e, e ≠ .ok ∧ m.put lim ns key value = (m, e)) ∨
    ∃ b, m.lookup ns = some b ∧
      m.put lim ns key value = (m.insert ns { b with entries := b.entries.insert key value }, .ok) := by
  unfold put
  cases hns : m.lookup ns with
  | none => exact .inl ⟨_, by decide, rfl⟩
  | some b =>
    dsimp only
    split_ifs <;> first
      | exact .inl ⟨_, by decide, rfl⟩
      | exact .inr ⟨b, rfl, rfl⟩

/-- A delete is refused, or erases. -/
theorem delete_cases (m : StateMap) (ns key : Bytes) :
    (∃ e, e ≠ .ok ∧ m.delete ns key = (m, e)) ∨
    ∃ b, m.lookup ns = some b ∧
      m.delete ns key = (m.insert ns { b with entries := b.entries.erase key }, .ok) := by
  unfold delete
  cases hns : m.lookup ns with
  | none => exact .inl ⟨_, by decide, rfl⟩
  | some b =>
    dsimp only
    split_ifs <;> first
      | exact .inl ⟨_, by decide, rfl⟩
      | exact .inr ⟨b, rfl, rfl⟩

/-- Setting a flag touches no entry and no other flag. -/
theorem setEnabled_frame (m : StateMap) (ns : Bytes) (enabled alloc : Bool) :
    (∀ ns' key, (m.setEnabled ns enabled alloc).1.entry ns' key = m.entry ns' key) ∧
      ∀ ns', ns ≠ ns' → (m.setEnabled ns enabled alloc).1.flag ns' = m.flag ns' := by
  unfold setEnabled
  cases hns : m.lookup ns with
  | some b =>
    refine ⟨fun ns' key => ?_, fun ns' hne => by rw [flag_insert, if_neg hne]⟩
    rw [entry_insert]
    split_ifs with h
    · subst h
      rw [entry_of_lookup hns]
    · rfl
  | none =>
    dsimp only
    split_ifs
    · exact ⟨fun _ _ => rfl, fun _ _ => rfl⟩
    · refine ⟨fun ns' key => ?_, fun ns' hne => by rw [flag_insert, if_neg hne]⟩
      rw [entry_insert]
      split_ifs with h
      · subst h
        simp [entry, hns]
      · rfl

/-- Applying a configuration touches no entry, and no flag that it does not configure. -/
theorem applyConfig_frame (m : StateMap) (cfg : EdgeConfig) (alloc : Bytes → Bool) :
    (∀ ns' key, (m.applyConfig cfg alloc).entry ns' key = m.entry ns' key) ∧
      ∀ ns', ns' ∉ (configuredNs cfg).map Prod.fst → (m.applyConfig cfg alloc).flag ns' = m.flag ns' := by
  unfold applyConfig
  induction configuredNs cfg generalizing m with
  | nil => exact ⟨fun _ _ => rfl, fun _ _ => rfl⟩
  | cons p ps ih =>
    obtain ⟨hentry, hflag⟩ := setEnabled_frame m p.1 p.2 (alloc p.1)
    obtain ⟨ihEntry, ihFlag⟩ := ih (m.setEnabled p.1 p.2 (alloc p.1)).1
    refine ⟨fun ns' key => (ihEntry ns' key).trans (hentry ns' key), fun ns' hns => ?_⟩
    rw [List.map_cons, List.mem_cons, not_or] at hns
    exact (ihFlag ns' hns.2).trans (hflag ns' (Ne.symm hns.1))

end StateMap

/-- The value under a key after one logged operation, when it was `v` before. -/
def lastPutStep (ns key : Bytes) (v : Option Bytes) : StateOp × StateReply → Option Bytes
  | (.put ns' key' value, .status .ok) => if ns' = ns ∧ key' = key then some value else v
  | (.delete ns' key', .status .ok) => if ns' = ns ∧ key' = key then none else v
  | _ => v

/-- The value last put under a key, with success, and not deleted with success since. -/
def lastPut (ns key : Bytes) (log : List (StateOp × StateReply)) : Option Bytes :=
  log.foldl (lastPutStep ns key) none

/-- The operation addresses this key for writing. -/
def StateOp.Writes (ns key : Bytes) : StateOp → Prop
  | .put ns' key' _ => ns' = ns ∧ key' = key
  | .delete ns' key' => ns' = ns ∧ key' = key
  | _ => False

/-- The operation addresses the flag of this namespace. -/
def StateOp.Switches (ns : Bytes) : StateOp → Prop
  | .setEnabled ns' _ _ => ns' = ns
  | .applyConfig cfg _ => ns ∈ (configuredNs cfg).map Prod.fst
  | _ => False

/-- The log step follows the map: a reply of OK tells what happened to the entry. -/
theorem StateMap.Step.entry {lim : StateLimits} {m m' : StateMap} {op : StateOp} {r : StateReply}
    (h : StateMap.Step lim m op m' r) (ns key : Bytes) :
    m'.entry ns key = lastPutStep ns key (m.entry ns key) (op, r) := by
  cases h with
  | put ns' key' value =>
    rcases StateMap.put_cases m lim ns' key' value with ⟨e, he, heq⟩ | ⟨b, hb, heq⟩
    · rw [heq]
      cases e <;> first | rfl | exact absurd rfl he
    · rw [heq, StateMap.entry_insert]
      by_cases hns : ns' = ns
      · subst hns
        rw [StateMap.entry_of_lookup hb]
        by_cases hkey : key' = key
        · subst hkey
          simp [lastPutStep, Finmap.lookup_insert]
        · simp [lastPutStep, hkey, Finmap.lookup_insert_of_ne _ (Ne.symm hkey)]
      · simp [lastPutStep, hns]
  | delete ns' key' =>
    rcases StateMap.delete_cases m ns' key' with ⟨e, he, heq⟩ | ⟨b, hb, heq⟩
    · rw [heq]
      cases e <;> first | rfl | exact absurd rfl he
    · rw [heq, StateMap.entry_insert]
      by_cases hns : ns' = ns
      · subst hns
        rw [StateMap.entry_of_lookup hb]
        by_cases hkey : key' = key
        · subst hkey
          simp [lastPutStep, Finmap.lookup_erase]
        · simp [lastPutStep, hkey, Finmap.lookup_erase_ne (Ne.symm hkey)]
      · simp [lastPutStep, hns]
  | get ns' key' outCap res hres => rfl
  | list ns' pfx maxKeys res hres => rfl
  | setEnabled ns' enabled alloc => exact (m.setEnabled_frame ns' enabled alloc).1 ns key
  | applyConfig cfg alloc => exact (m.applyConfig_frame cfg alloc).1 ns key

/-- An operation leaves the flags that it does not address. -/
theorem StateMap.Step.flag {lim : StateLimits} {m m' : StateMap} {op : StateOp} {r : StateReply}
    (h : StateMap.Step lim m op m' r) {ns : Bytes} (hns : ¬op.Switches ns) :
    m'.flag ns = m.flag ns := by
  cases h with
  | put ns' key' value =>
    rcases StateMap.put_cases m lim ns' key' value with ⟨e, -, heq⟩ | ⟨b, hb, heq⟩
    · rw [heq]
    · rw [heq, StateMap.flag_insert]
      split_ifs with heqns
      · subst heqns
        rw [StateMap.flag_of_lookup hb]
      · rfl
  | delete ns' key' =>
    rcases StateMap.delete_cases m ns' key' with ⟨e, -, heq⟩ | ⟨b, hb, heq⟩
    · rw [heq]
    · rw [heq, StateMap.flag_insert]
      split_ifs with heqns
      · subst heqns
        rw [StateMap.flag_of_lookup hb]
      · rfl
  | get ns' key' outCap res hres => rfl
  | list ns' pfx maxKeys res hres => rfl
  | setEnabled ns' enabled alloc => exact (m.setEnabled_frame ns' enabled alloc).2 ns hns
  | applyConfig cfg alloc => exact (m.applyConfig_frame cfg alloc).2 ns hns

/-! ## Refused operations -/

theorem edgeStatePut_refused {st : StateStore} {ns key value : Bytes}
    (h : (edgeStatePut st ns key value).2 ≠ .ok) : (edgeStatePut st ns key value).1 = st := by
  revert h
  unfold edgeStatePut
  cases findNs st ns with
  | none => exact fun _ => rfl
  | some p =>
    dsimp only
    split_ifs <;> try exact fun _ => rfl
    cases findEntry p.2 key with
    | some q => exact fun h => absurd rfl h
    | none =>
      cases findFree p.2 with
      | none => exact fun _ => rfl
      | some q => exact fun h => absurd rfl h

theorem edgeStateDelete_refused {st : StateStore} {ns key : Bytes}
    (h : (edgeStateDelete st ns key).2 ≠ .ok) : (edgeStateDelete st ns key).1 = st := by
  revert h
  unfold edgeStateDelete
  cases findNs st ns with
  | none => exact fun _ => rfl
  | some p =>
    dsimp only
    by_cases hdisabled : (!p.2.enabled) = true
    · rw [if_pos hdisabled]
      exact fun _ => rfl
    rw [if_neg hdisabled]
    cases findEntry p.2 key with
    | none => exact fun _ => rfl
    | some q => exact fun h => absurd rfl h

theorem registerNs_refused {st : StateStore} {ns : Bytes} {enabled alloc : Bool}
    (h : (registerNs st ns enabled alloc).2 ≠ 0) : (registerNs st ns enabled alloc).1 = st := by
  revert h
  unfold registerNs
  by_cases hname : ns = [] ∨ ns.length ≥ 64
  · rw [if_pos hname]
    exact fun _ => rfl
  rw [if_neg hname]
  cases findNs st ns with
  | some p => exact fun h => absurd rfl h
  | none =>
    dsimp only
    split_ifs
    · exact fun _ => rfl
    · exact fun _ => rfl
    · exact fun h => absurd rfl h

theorem edgeStateNsSetEnabled_refused {st : StateStore} {ns : Bytes} {enabled alloc : Bool}
    (h : (edgeStateNsSetEnabled st ns enabled alloc).2 ≠ 0) :
    (edgeStateNsSetEnabled st ns enabled alloc).1 = st := by
  unfold edgeStateNsSetEnabled at h ⊢
  cases hns : findNs st ns with
  | some p =>
    rw [hns] at h
    exact absurd rfl h
  | none =>
    rw [hns] at h
    exact registerNs_refused h

/-- **An operation that reports an error leaves the store as it was**, stale bytes included. -/
theorem StateOp.refused {st : StateStore} (op : StateOp) (h : (op.apply st).2.IsError) :
    (op.apply st).1 = st := by
  cases op with
  | put ns key value => exact edgeStatePut_refused h
  | get ns key outCap => rfl
  | delete ns key => exact edgeStateDelete_refused h
  | list ns pfx maxKeys => rfl
  | setEnabled ns enabled alloc => exact edgeStateNsSetEnabled_refused h
  | applyConfig cfg alloc => exact absurd h id

/-! ## Runs -/

/-- A store and the log of its operations with their replies. -/
structure StateRun where
  store : StateStore
  log : List (StateOp × StateReply)

namespace StateRun

/-- Run one operation and log it. -/
def step (r : StateRun) (op : StateOp) : StateRun where
  store := (op.apply r.store).1
  log := r.log ++ [(op, (op.apply r.store).2)]

/-- A new store, with nothing logged. -/
def create (cfg : EdgeStateConfig) : StateRun where
  store := edgeStateCreateWithConfig cfg
  log := []

/-- The invariant: the store is well formed within its limits, and each entry is the value last
put. -/
structure Inv (cfg : EdgeStateConfig) (r : StateRun) : Prop where
  wf : r.store.WF
  limits : r.store.limits = cfg.limits
  entry_eq : ∀ ns key, r.store.toMap.entry ns key = lastPut ns key r.log

/-- The contract of the store in a state reached with this log. -/
structure RefinesMap (cfg : EdgeStateConfig) (r : StateRun) : Prop where
  /-- Each operation does what the map does. -/
  step : ∀ op : StateOp, StateMap.Step cfg.limits r.store.toMap op (op.apply r.store).1.toMap
    (op.apply r.store).2
  bounded : ∀ ns b, r.store.toMap.lookup ns = some b → b.entries.keys.card ≤ cfg.maxKeys
  get : ∀ ns key outCap, edgeStateNsEnabled r.store ns = true → edgeStateKeyValid key = true →
    match lastPut ns key r.log with
    | some v => v.length < outCap → edgeStateGet r.store ns key outCap = .ok (v, v.length)
    | none => edgeStateGet r.store ns key outCap = .error .notFound
  refused : ∀ op : StateOp, (op.apply r.store).2.IsError → (op.apply r.store).1 = r.store
  /-- Another key's put or delete, and every change of a flag, leave an entry as it is. -/
  frame_entry : ∀ (op : StateOp) ns key, ¬op.Writes ns key →
    (op.apply r.store).1.toMap.entry ns key = r.store.toMap.entry ns key
  frame_flag : ∀ (op : StateOp) ns, ¬op.Switches ns →
    (op.apply r.store).1.toMap.flag ns = r.store.toMap.flag ns
  /-- A disabled namespace shows none of its entries; they are in the map all the same. -/
  hidden : ∀ ns, r.store.toMap.flag ns = some false →
    (∀ key outCap, edgeStateGet r.store ns key outCap = .error .nsDisabled) ∧
      ∀ pfx maxKeys, edgeStateList r.store ns pfx maxKeys = none
  count : ∀ ns, edgeStateCount r.store ns =
    ((r.store.toMap.lookup ns).map fun b => b.entries.keys.card).getD 0
  list : ∀ ns pfx maxKeys, r.store.toMap.ListReply ns pfx maxKeys
    (edgeStateList r.store ns pfx maxKeys)

end StateRun

/-! ### Creation -/

/-- A well-formed store without entries. -/
structure StateStore.Fresh (cfg : EdgeStateConfig) (st : StateStore) : Prop where
  wf : st.WF
  limits : st.limits = cfg.limits
  entry_eq : ∀ ns key, st.toMap.entry ns key = none

/-- For a proper name, registering is setting the flag. -/
theorem registerNs_eq {st : StateStore} {ns : Bytes} (hname : ¬(ns = [] ∨ ns.length ≥ 64))
    (enabled alloc : Bool) :
    registerNs st ns enabled alloc = edgeStateNsSetEnabled st ns enabled alloc := by
  unfold edgeStateNsSetEnabled
  cases hns : findNs st ns with
  | none => rfl
  | some p =>
    unfold registerNs
    rw [if_neg hname, hns]

theorem StateStore.Fresh.register {cfg : EdgeStateConfig} {st : StateStore} (h : st.Fresh cfg)
    {ns : Bytes} (hname : ¬(ns = [] ∨ ns.length ≥ 64)) (enabled alloc : Bool) :
    (registerNs st ns enabled alloc).1.Fresh cfg := by
  rw [registerNs_eq hname]
  have hset := edgeStateNsSetEnabled_refines h.wf ns enabled alloc
  refine ⟨hset.wf, hset.limits.trans h.limits, fun ns' key => ?_⟩
  rw [hset.toMap, (st.toMap.setEnabled_frame ns enabled alloc).1, h.entry_eq]

theorem edgeStateCreateWithConfig_fresh (cfg : EdgeStateConfig) :
    (edgeStateCreateWithConfig cfg).Fresh cfg := by
  have hempty : (⟨[], cfg.maxKeys, cfg.maxValue⟩ : StateStore).Fresh cfg :=
    ⟨⟨by simp, by intro i j x y hx; simp at hx, by simp⟩, rfl, fun _ _ => rfl⟩
  unfold edgeStateCreateWithConfig
  refine .register (.register (.register (.register (.register (.register hempty ?_ _ _) ?_ _ _)
    ?_ _ _) ?_ _ _) ?_ _ _) ?_ _ _ <;> decide

namespace StateRun

theorem create_inv (cfg : EdgeStateConfig) : (create cfg).Inv cfg := by
  obtain ⟨hwf, hlimits, hentry⟩ := edgeStateCreateWithConfig_fresh cfg
  unfold create
  generalize edgeStateCreateWithConfig cfg = st at hwf hlimits hentry ⊢
  exact ⟨hwf, hlimits, hentry⟩

theorem step_inv {cfg : EdgeStateConfig} (r : StateRun) (op : StateOp) (h : r.Inv cfg) :
    (r.step op).Inv cfg := by
  obtain ⟨hwf, hlimits, hstep⟩ := op.refines h.wf
  refine ⟨hwf, hlimits.trans h.limits, fun ns key => ?_⟩
  simp only [step, lastPut, List.foldl_append, List.foldl_cons, List.foldl_nil]
  rw [hstep.entry, h.entry_eq]
  rfl

/-- The invariant is the contract. -/
theorem Inv.refines_run {cfg : EdgeStateConfig} {r : StateRun} (h : r.Inv cfg) :
    r.RefinesMap cfg where
  step op := h.limits ▸ (op.refines h.wf).2.2
  bounded ns b hb := by
    obtain ⟨n, hn, rfl⟩ : ∃ n, nsView.lookup r.store.ns ns = some n ∧ n.bucket = b := by
      rwa [StateStore.toMap, SlotView.lookup_toFinmap, Option.map_eq_some_iff] at hb
    have hmax : r.store.maxKeys = cfg.maxKeys := congrArg StateLimits.maxKeys h.limits
    exact hmax ▸ (h.wf.each n (SlotView.lookup_mem hn).1).card_le
  get ns key outCap henabled hkey := by
    have hget := edgeStateGet_refines h.wf ns key outCap
    rw [edgeStateNsEnabled_eq] at henabled
    rw [← h.entry_eq]
    unfold StateMap.flag at henabled
    cases hns : r.store.toMap.lookup ns with
    | none => simp [hns] at henabled
    | some b =>
      rw [hns] at henabled
      have hflag : b.enabled = true := henabled
      rw [StateMap.entry_of_lookup hns]
      simp only [StateMap.get, hns, hflag, hkey, Bool.not_true, Bool.false_eq_true, if_false] at hget
      cases hentry : b.entries.lookup key with
      | none => simpa [hentry] using hget
      | some v => simpa [hentry] using hget
  refused op := op.refused
  frame_entry op ns key hw := by
    rw [(op.refines h.wf).2.2.entry]
    cases op with
    | put ns' key' value =>
      have hne : ¬(ns' = ns ∧ key' = key) := hw
      simp only [StateOp.apply]
      cases (edgeStatePut r.store ns' key' value).2 <;> simp [lastPutStep, hne]
    | delete ns' key' =>
      have hne : ¬(ns' = ns ∧ key' = key) := hw
      simp only [StateOp.apply]
      cases (edgeStateDelete r.store ns' key').2 <;> simp [lastPutStep, hne]
    | get ns' key' outCap => rfl
    | list ns' pfx maxKeys => rfl
    | setEnabled ns' enabled alloc => rfl
    | applyConfig cfg alloc => rfl
  frame_flag op ns hs := (op.refines h.wf).2.2.flag hs
  hidden ns hflag := by
    obtain ⟨b, hb, hoff⟩ : ∃ b, r.store.toMap.lookup ns = some b ∧ b.enabled = false := by
      simpa [StateMap.flag, Option.map_eq_some_iff] using hflag
    refine ⟨fun key outCap => ?_, fun pfx maxKeys => ?_⟩
    · have hget := edgeStateGet_refines h.wf ns key outCap
      simpa [StateMap.get, hb, hoff] using hget
    · have hlist := edgeStateList_refines h.wf ns pfx maxKeys
      cases hres : edgeStateList r.store ns pfx maxKeys with
      | none => rfl
      | some ks =>
        rw [hres] at hlist
        obtain ⟨-, b', hb', hon, -⟩ := hlist
        obtain rfl := Option.some.inj (hb.symm.trans hb')
        exact absurd (hoff.symm.trans hon) (by decide)
  count := edgeStateCount_refines h.wf
  list := edgeStateList_refines h.wf

/-- **In every reachable state the store is the map that its log describes.** -/
theorem refinesMap (cfg : EdgeStateConfig) (ops : List StateOp) :
    Always step (RefinesMap cfg) (create cfg) ops := by
  have hinv : Always step (Inv cfg) (create cfg) ops := always_of_step step_inv (create_inv cfg) ops
  rw [always_iff_prefixes] at hinv ⊢
  exact fun js hjs => (hinv js hjs).refines_run

end StateRun

end Edgehost
