import Edgehost.Common.Runs
import Edgehost.Core.StateStore

/-!
# The state store as a map

What the store is for: a finite map from namespaces to an enabled flag and a finite map from keys to
values. `StateMap` states the operations on such maps; `StateStore.toMap` reads a store as one, and
`StateOp.refines` says that every operation of a well-formed store does what the map does.

Over whole runs, `StateRun.refinesMap` adds that the value of a key is the one that was last put and
not deleted since, which the log of operations and replies tells.
-/

namespace Edgehost

/-! ## The abstract store -/

/-- A namespace: its flag and its entries. -/
structure Bucket where
  enabled : Bool
  entries : Finmap fun _ : Bytes => Bytes

/-- The store as a map from namespaces. -/
abbrev StateMap := Finmap fun _ : Bytes => Bucket

/-- The limits fixed at creation. -/
structure StateLimits where
  maxKeys : ℕ
  maxValue : ℕ

namespace StateMap

/-- Put a value under a key. -/
def put (lim : StateLimits) (m : StateMap) (ns key value : Bytes) : StateMap × EdgeStateErr :=
  match m.lookup ns with
  | none => (m, .badNs)
  | some b =>
    if !b.enabled then (m, .nsDisabled)
    else if !edgeStateKeyValid key then (m, .badKey)
    else if value.length > lim.maxValue then (m, .tooLarge)
    else if !edgeStateJsonOk value then (m, .badJson)
    else if b.entries.lookup key = none ∧ b.entries.keys.card = lim.maxKeys then (m, .nsFull)
    else (m.insert ns { b with entries := b.entries.insert key value }, .ok)

/-- Look a key up. -/
def get (m : StateMap) (ns key : Bytes) : Except EdgeStateErr Bytes :=
  match m.lookup ns with
  | none => .error .badNs
  | some b =>
    if !b.enabled then .error .nsDisabled
    else if !edgeStateKeyValid key then .error .badKey
    else
      match b.entries.lookup key with
      | none => .error .notFound
      | some v => .ok v

/-- Remove a key. -/
def delete (m : StateMap) (ns key : Bytes) : StateMap × EdgeStateErr :=
  match m.lookup ns with
  | none => (m, .badNs)
  | some b =>
    if !b.enabled then (m, .nsDisabled)
    else if b.entries.lookup key = none then (m, .notFound)
    else (m.insert ns { b with entries := b.entries.erase key }, .ok)

/-- Set a namespace's flag; an unknown one is registered when there is room for it. -/
def setEnabled (m : StateMap) (ns : Bytes) (enabled alloc : Bool) : StateMap × ℤ :=
  match m.lookup ns with
  | some b => (m.insert ns { b with enabled }, 0)
  | none =>
    if ns = [] ∨ ns.length ≥ 64 ∨ m.keys.card = EDGE_STATE_NS_MAX ∨ alloc = false then (m, -1)
    else (m.insert ns { enabled, entries := ∅ }, 0)

/-- Set the flags of the configured namespaces. -/
def applyConfig (m : StateMap) (cfg : EdgeConfig) (alloc : Bytes → Bool) : StateMap :=
  (configuredNs cfg).foldl (fun m p => (m.setEnabled p.1 p.2 (alloc p.1)).1) m

/-- A listing holds live keys with the prefix, each once, and all of them when they are few. -/
structure Lists (entries : Finmap fun _ : Bytes => Bytes) (pfx : Bytes) (limit : ℕ)
    (ks : List Bytes) : Prop where
  nodup : ks.Nodup
  live : ∀ k ∈ ks, k ∈ entries ∧ pfx <+: k
  length_le : ks.length ≤ limit
  all : (entries.keys.filter (pfx <+: ·)).card ≤ limit → ∀ k ∈ entries, pfx <+: k → k ∈ ks

/-- What a listing may return; which keys a long one leaves out is not said. -/
def ListReply (m : StateMap) (ns pfx : Bytes) (maxKeys : ℕ) : Option (List Bytes) → Prop
  | none => maxKeys = 0 ∨ ∀ b, m.lookup ns = some b → b.enabled = false
  | some ks => 0 < maxKeys ∧ ∃ b, m.lookup ns = some b ∧ b.enabled = true ∧
      Lists b.entries pfx (min maxKeys EDGE_STATE_LIST_CAP) ks

/-- The value under a key, whether or not its namespace is enabled. -/
def entry (m : StateMap) (ns key : Bytes) : Option Bytes :=
  (m.lookup ns).bind fun b => b.entries.lookup key

/-- The flag of a registered namespace. -/
def flag (m : StateMap) (ns : Bytes) : Option Bool := (m.lookup ns).map Bucket.enabled

end StateMap

/-! ## Reading a store as a map -/

/-- The bytes an entry holds. -/
def StateEntry.text (e : StateEntry) : Bytes := e.value.take e.valueLen

/-- A namespace record read as a bucket. -/
def StateNs.bucket (n : StateNs) : Bucket where
  enabled := n.enabled
  entries := entryView.toFinmap StateEntry.text n.entries

/-- A store read as a map. -/
def StateStore.toMap (st : StateStore) : StateMap := nsView.toFinmap StateNs.bucket st.ns

def StateStore.limits (st : StateStore) : StateLimits := ⟨st.maxKeys, st.maxValue⟩

/-- The limits of a store created with `cfg`. -/
def EdgeStateConfig.limits (cfg : EdgeStateConfig) : StateLimits := ⟨cfg.maxKeys, cfg.maxValue⟩

/-- The invariant of one namespace: keys in use are distinct and short, and are counted. -/
structure StateNs.WF (n : StateNs) (maxKeys : ℕ) : Prop where
  registered : n.registered = true
  capacity : n.entries.length = maxKeys
  distinct : entryView.Distinct n.entries
  count_eq : n.count = n.entries.countP entryView.live
  key_lt : ∀ e ∈ n.entries, e.used = true → e.key.length < EDGE_STATE_KEY_MAX
  value_fits : ∀ e ∈ n.entries, e.used = true → e.valueLen ≤ e.value.length

/-- The invariant of a store. -/
structure StateStore.WF (st : StateStore) : Prop where
  fits : st.ns.length ≤ EDGE_STATE_NS_MAX
  distinct : nsView.Distinct st.ns
  each : ∀ n ∈ st.ns, n.WF st.maxKeys

@[simp] theorem StateEntry.text_write (e : StateEntry) (value : Bytes) :
    (e.write value).text = value := by
  simp [text, write]

theorem StateEntry.write_fits (e : StateEntry) (value : Bytes) :
    (e.write value).valueLen ≤ (e.write value).value.length := by
  simp [write]

@[simp] theorem setNs_maxKeys (st : StateStore) (i : ℕ) (n : StateNs) :
    (setNs st i n).maxKeys = st.maxKeys := rfl

@[simp] theorem setNs_limits (st : StateStore) (i : ℕ) (n : StateNs) :
    (setNs st i n).limits = st.limits := rfl

/-! ### Namespaces -/

theorem toMap_lookup_of_findNs_none {st : StateStore} {ns : Bytes} (h : findNs st ns = none) :
    st.toMap.lookup ns = none := by
  have hnone := nsView.lookup_eq_none_iff.mpr (nsView.locate_eq_none.mp h)
  rw [StateStore.toMap, SlotView.lookup_toFinmap, hnone]
  rfl

theorem findNs_some {st : StateStore} {ns : Bytes} {i : ℕ} {n : StateNs}
    (h : findNs st ns = some (i, n)) : st.ns[i]? = some n ∧ n.registered = true ∧ n.name = ns :=
  (nsView.locate_eq_some h).2

theorem toMap_lookup_of_findNs {st : StateStore} {ns : Bytes} {i : ℕ} {n : StateNs}
    (h : findNs st ns = some (i, n)) : st.toMap.lookup ns = some n.bucket := by
  obtain ⟨hfind, hn, -⟩ := nsView.locate_eq_some h
  rw [StateStore.toMap, SlotView.lookup_toFinmap, nsView.lookup_of_find hfind hn]
  rfl

/-- Rewriting the record of a namespace keeps the names distinct. -/
theorem distinct_setNs {st : StateStore} {i : ℕ} {n n' : StateNs} (hwf : st.WF)
    (hn : st.ns[i]? = some n) (hreg : n.registered = true) (hname : n'.name = n.name) :
    nsView.Distinct (st.ns.set i n') := by
  refine hwf.distinct.set i n' fun _ j m hj hm hlive hkey => hj ?_
  exact hwf.distinct j i m n hm hn hlive hreg (hkey.trans hname)

theorem setNs_wf {st : StateStore} {i : ℕ} {n n' : StateNs} (hwf : st.WF)
    (hn : st.ns[i]? = some n) (hname : n'.name = n.name) (hn' : n'.WF st.maxKeys) :
    (setNs st i n').WF where
  fits := by simpa [setNs] using hwf.fits
  distinct := distinct_setNs hwf hn (hwf.each n (List.mem_of_getElem? hn)).registered hname
  each m hm := by
    rcases List.mem_or_eq_of_mem_set hm with hold | rfl
    · exact hwf.each m hold
    · exact hn'

theorem toMap_setNs {st : StateStore} {i : ℕ} {n n' : StateNs} (hwf : st.WF)
    (hn : st.ns[i]? = some n) (hname : n'.name = n.name) (hreg : n'.registered = true) :
    (setNs st i n').toMap = st.toMap.insert n.name n'.bucket := by
  have hreg₀ := (hwf.each n (List.mem_of_getElem? hn)).registered
  rw [← hname]
  exact hwf.distinct.toFinmap_set_insert StateNs.bucket hn (distinct_setNs hwf hn hreg₀ hname) hreg
    fun _ => hname.symm

/-- Registering a name that is not there adds an empty namespace. -/
theorem appendNs {st : StateStore} (hwf : st.WF) {ns : Bytes} (enabled : Bool)
    (hlen : ns.length < 64) (hroom : st.ns.length < EDGE_STATE_NS_MAX)
    (hnone : findNs st ns = none) :
    ({ st with ns := st.ns ++ [newNs st ns enabled] } : StateStore).WF ∧
      ({ st with ns := st.ns ++ [newNs st ns enabled] } : StateStore).toMap
        = st.toMap.insert ns { enabled, entries := ∅ } := by
  have hname : (newNs st ns enabled).name = ns := snprintf_of_fits hlen
  have hfresh := nsView.find_eq_none.mp (nsView.locate_eq_none.mp hnone)
  have hd : nsView.Distinct (st.ns ++ [newNs st ns enabled]) :=
    hwf.distinct.append fun _ n hn hlive hkey => hfresh n hn hlive (hkey.trans hname)
  have hempty : ∀ e ∈ (newNs st ns enabled).entries, e.used = false := by
    intro e he
    rw [List.eq_of_mem_replicate he]
  have hbucket : (newNs st ns enabled).bucket = { enabled, entries := ∅ } := by
    have hnil : (newNs st ns enabled).entries.filter entryView.live = [] :=
      List.filter_eq_nil_iff.mpr fun e he => by simp [entryView, hempty e he]
    simp only [StateNs.bucket, SlotView.toFinmap, hnil]
    rfl
  refine ⟨⟨by simp; omega, hd, ?_⟩, ?_⟩
  · intro n hn
    rcases List.mem_append.mp hn with hold | hnew
    · exact hwf.each n hold
    · obtain rfl := List.mem_singleton.mp hnew
      refine ⟨rfl, by simp [newNs], ?_, ?_, ?_, ?_⟩
      · intro i j x y hx _ hlive
        simp [entryView, hempty x (List.mem_of_getElem? hx)] at hlive
      · refine (List.countP_eq_zero.mpr fun e he => ?_).symm
        simp [entryView, hempty e he]
      · intro e he hused
        simp [hempty e he] at hused
      · intro e he hused
        simp [hempty e he] at hused
  · rw [StateStore.toMap, hd.toFinmap_append StateNs.bucket rfl, hbucket]
    exact congrArg (fun k => Finmap.insert k _ _) hname

/-! ### Entries -/

theorem bucket_lookup_of_findEntry_none {n : StateNs} {key : Bytes} (h : findEntry n key = none) :
    n.bucket.entries.lookup key = none := by
  have hnone := entryView.lookup_eq_none_iff.mpr (entryView.locate_eq_none.mp h)
  rw [StateNs.bucket, SlotView.lookup_toFinmap, hnone]
  rfl

theorem bucket_lookup_of_findEntry {n : StateNs} {key : Bytes} {j : ℕ} {e : StateEntry}
    (h : findEntry n key = some (j, e)) : n.bucket.entries.lookup key = some e.text := by
  obtain ⟨hfind, he, -⟩ := entryView.locate_eq_some h
  rw [StateNs.bucket, SlotView.lookup_toFinmap, entryView.lookup_of_find hfind he]
  rfl

namespace StateNs

variable {n : StateNs} {maxKeys : ℕ}

/-- The number of keys never exceeds the capacity. -/
theorem WF.card_le (hwf : n.WF maxKeys) : n.bucket.entries.keys.card ≤ maxKeys := by
  rw [bucket, hwf.distinct.card_keys StateEntry.text, ← hwf.capacity]
  exact List.countP_le_length

/-- A new record for an entry keeps the invariant when its key is not in use elsewhere. -/
theorem WF.setEntry (hwf : n.WF maxKeys) {j : ℕ} {e e' : StateEntry} (he : n.entries[j]? = some e)
    {count : ℕ} (hd : entryView.Distinct (n.entries.set j e'))
    (hcount : count + (if entryView.live e then 1 else 0)
      = n.count + (if entryView.live e' then 1 else 0))
    (hkey : e'.used = true → e'.key.length < EDGE_STATE_KEY_MAX)
    (hfits : e'.used = true → e'.valueLen ≤ e'.value.length) :
    ({ n with entries := n.entries.set j e', count } : StateNs).WF maxKeys where
  registered := hwf.registered
  capacity := by simpa using hwf.capacity
  distinct := hd
  count_eq := by
    have hset := countP_set_add entryView.live e' he
    have hold := hwf.count_eq
    simp only
    omega
  key_lt e₁ he₁ hused := by
    rcases List.mem_or_eq_of_mem_set he₁ with hold | rfl
    · exact hwf.key_lt e₁ hold hused
    · exact hkey hused
  value_fits e₁ he₁ hused := by
    rcases List.mem_or_eq_of_mem_set he₁ with hold | rfl
    · exact hwf.value_fits e₁ hold hused
    · exact hfits hused

/-- Overwriting the value of a key. -/
theorem WF.update (hwf : n.WF maxKeys) (value : Bytes) {key : Bytes} {j : ℕ} {e : StateEntry}
    (h : findEntry n key = some (j, e)) :
    let n' : StateNs := { n with entries := n.entries.set j (e.write value) }
    n'.WF maxKeys ∧ n'.bucket = ⟨n.enabled, n.bucket.entries.insert key value⟩ := by
  obtain ⟨-, he, hused, rfl⟩ := entryView.locate_eq_some h
  have hd : entryView.Distinct (n.entries.set j (e.write value)) := by
    refine hwf.distinct.set j _ fun _ i e₁ hi he₁ hlive hkey => hi ?_
    exact hwf.distinct i j e₁ e he₁ he hlive hused hkey
  refine ⟨hwf.setEntry he hd rfl (fun _ => hwf.key_lt e (List.mem_of_getElem? he) hused)
    fun _ => e.write_fits value, ?_⟩
  have hins := hwf.distinct.toFinmap_set_insert StateEntry.text he hd hused fun _ => rfl
  rw [StateEntry.text_write] at hins
  exact congrArg (Bucket.mk n.enabled) hins

/-- Taking a free entry for a new key. -/
theorem WF.fill (hwf : n.WF maxKeys) (value : Bytes) {key : Bytes} {j : ℕ} {e : StateEntry}
    (hvalid : key.length < EDGE_STATE_KEY_MAX) (hnew : findEntry n key = none)
    (h : findFree n = some (j, e)) :
    let e' := { e with key := snprintf EDGE_STATE_KEY_MAX key, used := true }
    let n' : StateNs :=
      { n with entries := n.entries.set j (e'.write value), count := n.count + 1 }
    n'.WF maxKeys ∧ n'.bucket = ⟨n.enabled, n.bucket.entries.insert key value⟩ := by
  obtain ⟨he, hfree⟩ := locateFree_eq_some h
  rw [snprintf_of_fits hvalid]
  intro e' n'
  have hfresh := entryView.find_eq_none.mp (entryView.locate_eq_none.mp hnew)
  have hd : entryView.Distinct (n.entries.set j (e'.write value)) :=
    hwf.distinct.set j _ fun _ i e₁ _ he₁ hlive => hfresh e₁ (List.mem_of_getElem? he₁) hlive
  have hunused : e.used = false := hfree
  refine ⟨hwf.setEntry he hd (by simp [entryView, hunused, e', StateEntry.write])
    (fun _ => hvalid) fun _ => e'.write_fits value, ?_⟩
  have hins := hwf.distinct.toFinmap_set_insert StateEntry.text he hd rfl
    fun hlive => absurd (hfree.symm.trans hlive) (by decide)
  rw [StateEntry.text_write] at hins
  exact congrArg (Bucket.mk n.enabled) hins

/-- Without a free entry the namespace holds its full number of keys. -/
theorem WF.card_of_full (hwf : n.WF maxKeys) (h : findFree n = none) :
    n.bucket.entries.keys.card = maxKeys := by
  rw [bucket, hwf.distinct.card_keys StateEntry.text, ← hwf.capacity]
  exact locateFree_eq_none.mp h

theorem WF.card_ne_of_free (hwf : n.WF maxKeys) {j : ℕ} {e : StateEntry}
    (h : findFree n = some (j, e)) : n.bucket.entries.keys.card ≠ maxKeys := by
  rw [bucket, hwf.distinct.card_keys StateEntry.text, ← hwf.capacity]
  exact fun hfull => absurd ((locateFree_eq_none.mpr hfull).symm.trans h) (by simp)

/-- Clearing the entry of a key. -/
theorem WF.clear (hwf : n.WF maxKeys) {key : Bytes} {j : ℕ} {e : StateEntry}
    (h : findEntry n key = some (j, e)) :
    let n' : StateNs :=
      { n with entries := n.entries.set j { e with used := false, valueLen := 0, key := [] },
               count := if n.count > 0 then n.count - 1 else n.count }
    n'.WF maxKeys ∧ n'.bucket = ⟨n.enabled, n.bucket.entries.erase key⟩ := by
  obtain ⟨-, he, hused, rfl⟩ := entryView.locate_eq_some h
  have hd : entryView.Distinct
      (n.entries.set j { e with used := false, valueLen := 0, key := [] }) :=
    hwf.distinct.set j _ fun hlive => absurd hlive (by simp [entryView])
  have hpos : 0 < n.count := by
    rw [hwf.count_eq]
    exact List.countP_pos_iff.mpr ⟨e, List.mem_of_getElem? he, hused⟩
  have hlive : e.used = true := hused
  refine ⟨hwf.setEntry he hd (by simp [entryView, hpos, hlive]; omega) (by simp) (by simp), ?_⟩
  exact congrArg (Bucket.mk n.enabled) (hwf.distinct.toFinmap_set_erase StateEntry.text he hd rfl hused)

end StateNs

/-! ## The operations refine the map -/

theorem edgeStateKeyValid_length {key : Bytes} (h : edgeStateKeyValid key = true) :
    key.length < EDGE_STATE_KEY_MAX := by
  unfold edgeStateKeyValid at h
  split_ifs at h with hnil hlong
  simp only [EDGE_STATE_KEY_MAX] at hlong ⊢
  omega

/-- A result of the store `st` is the result of the map. The new store is well formed and keeps the
limits. -/
structure Refines {ρ : Type*} (st : StateStore) (r : StateStore × ρ) (m : StateMap × ρ) : Prop where
  wf : r.1.WF
  limits : r.1.limits = st.limits
  toMap : r.1.toMap = m.1
  ret : r.2 = m.2

variable {st : StateStore}

/-- Both sides rewrite one namespace. -/
theorem Refines.setNs {ρ : Type*} (hwf : st.WF) {i : ℕ} {n n' : StateNs} (hn : st.ns[i]? = some n)
    (hn' : n'.WF st.maxKeys) (hname : n'.name = n.name) {b : Bucket} (hb : n'.bucket = b) (r : ρ) :
    Refines st (setNs st i n', r) (st.toMap.insert n.name b, r) :=
  ⟨setNs_wf hwf hn hname hn', rfl, by rw [toMap_setNs hwf hn hname hn'.registered, hb], rfl⟩

theorem edgeStatePut_refines (hwf : st.WF) (ns key value : Bytes) :
    Refines st (edgeStatePut st ns key value) (st.toMap.put st.limits ns key value) := by
  unfold edgeStatePut StateMap.put
  cases hns : findNs st ns with
  | none =>
    rw [toMap_lookup_of_findNs_none hns]
    exact ⟨hwf, rfl, rfl, rfl⟩
  | some p =>
    obtain ⟨i, n⟩ := p
    obtain ⟨hn, hreg, rfl⟩ := findNs_some hns
    have hnwf := hwf.each n (List.mem_of_getElem? hn)
    rw [toMap_lookup_of_findNs hns]
    have hsame : ∀ e : EdgeStateErr, Refines st (st, e) (st.toMap, e) := fun e => ⟨hwf, rfl, rfl, rfl⟩
    dsimp only
    by_cases hdisabled : (!n.enabled) = true
    · rw [if_pos hdisabled, if_pos (show (!n.bucket.enabled) = true from hdisabled)]
      exact hsame _
    rw [if_neg hdisabled, if_neg (show ¬(!n.bucket.enabled) = true from hdisabled)]
    by_cases hkey : (!edgeStateKeyValid key) = true
    · rw [if_pos hkey, if_pos hkey]
      exact hsame _
    rw [if_neg hkey, if_neg hkey]
    by_cases hlen : value.length > st.maxValue
    · rw [if_pos hlen, if_pos (show value.length > st.limits.maxValue from hlen)]
      exact hsame _
    rw [if_neg hlen, if_neg (show ¬value.length > st.limits.maxValue from hlen)]
    by_cases hjson : (!edgeStateJsonOk value) = true
    · rw [if_pos hjson, if_pos hjson]
      exact hsame _
    rw [if_neg hjson, if_neg hjson]
    -- The key has its entry, takes a free one, or finds the namespace full.
    cases hentry : findEntry n key with
    | some p =>
      obtain ⟨j, e⟩ := p
      obtain ⟨hwf', hbucket⟩ := hnwf.update value hentry
      rw [if_neg (by simp [bucket_lookup_of_findEntry hentry])]
      exact .setNs hwf hn hwf' rfl hbucket _
    | none =>
      have hnew := bucket_lookup_of_findEntry_none hentry
      cases hfree : findFree n with
      | none =>
        rw [if_pos ⟨hnew, hnwf.card_of_full hfree⟩]
        exact hsame _
      | some p =>
        obtain ⟨j, e⟩ := p
        obtain ⟨hwf', hbucket⟩ := hnwf.fill value
          (edgeStateKeyValid_length (by simpa using hkey)) hentry hfree
        rw [if_neg (fun h => hnwf.card_ne_of_free hfree h.2)]
        exact .setNs hwf hn hwf' rfl hbucket _

theorem edgeStateDelete_refines (hwf : st.WF) (ns key : Bytes) :
    Refines st (edgeStateDelete st ns key) (st.toMap.delete ns key) := by
  unfold edgeStateDelete StateMap.delete
  cases hns : findNs st ns with
  | none =>
    rw [toMap_lookup_of_findNs_none hns]
    exact ⟨hwf, rfl, rfl, rfl⟩
  | some p =>
    obtain ⟨i, n⟩ := p
    obtain ⟨hn, hreg, rfl⟩ := findNs_some hns
    have hnwf := hwf.each n (List.mem_of_getElem? hn)
    rw [toMap_lookup_of_findNs hns]
    dsimp only
    by_cases hdisabled : (!n.enabled) = true
    · rw [if_pos hdisabled, if_pos (show (!n.bucket.enabled) = true from hdisabled)]
      exact ⟨hwf, rfl, rfl, rfl⟩
    rw [if_neg hdisabled, if_neg (show ¬(!n.bucket.enabled) = true from hdisabled)]
    cases hentry : findEntry n key with
    | none =>
      rw [if_pos (bucket_lookup_of_findEntry_none hentry)]
      exact ⟨hwf, rfl, rfl, rfl⟩
    | some p =>
      obtain ⟨j, e⟩ := p
      obtain ⟨hwf', hbucket⟩ := hnwf.clear hentry
      have hfound : n.bucket.entries.lookup key ≠ none := by
        simp [bucket_lookup_of_findEntry hentry]
      rw [if_neg hfound]
      exact .setNs hwf hn hwf' rfl hbucket _

/-- `get` agrees with the map: it copies what fits the buffer with a terminator, and returns the length
of the value. -/
theorem edgeStateGet_eq (hwf : st.WF) (ns key : Bytes) (outCap : ℕ) :
    edgeStateGet st ns key outCap
      = (st.toMap.get ns key).map fun v => (v.take (min v.length (outCap - 1)), v.length) := by
  unfold edgeStateGet StateMap.get
  cases hns : findNs st ns with
  | none =>
    rw [toMap_lookup_of_findNs_none hns]
    rfl
  | some p =>
    obtain ⟨i, n⟩ := p
    have hnwf := hwf.each n (List.mem_of_getElem? (findNs_some hns).1)
    rw [toMap_lookup_of_findNs hns]
    dsimp only
    by_cases hdisabled : (!n.enabled) = true
    · rw [if_pos hdisabled, if_pos (show (!n.bucket.enabled) = true from hdisabled)]
      rfl
    rw [if_neg hdisabled, if_neg (show ¬(!n.bucket.enabled) = true from hdisabled)]
    by_cases hkey : (!edgeStateKeyValid key) = true
    · rw [if_pos hkey, if_pos hkey]
      rfl
    rw [if_neg hkey, if_neg hkey]
    cases hentry : findEntry n key with
    | none =>
      rw [bucket_lookup_of_findEntry_none hentry]
      rfl
    | some p =>
      obtain ⟨j, e⟩ := p
      obtain ⟨-, he, hused, -⟩ := entryView.locate_eq_some hentry
      have hfits := hnwf.value_fits e (List.mem_of_getElem? he) hused
      have hlen : e.text.length = e.valueLen := by simp [StateEntry.text, hfits]
      have hcopy : (if e.valueLen ≥ outCap then outCap - 1 else e.valueLen)
          = min (min e.valueLen (outCap - 1)) e.valueLen := by
        split_ifs <;> omega
      rw [bucket_lookup_of_findEntry hentry]
      dsimp only [Except.map]
      rw [hlen, StateEntry.text, List.take_take, hcopy]

/-- A buffer longer than the value receives all of it. -/
theorem edgeStateGet_refines (hwf : st.WF) (ns key : Bytes) (outCap : ℕ) :
    match st.toMap.get ns key with
    | .error e => edgeStateGet st ns key outCap = .error e
    | .ok v => v.length < outCap → edgeStateGet st ns key outCap = .ok (v, v.length) := by
  rw [edgeStateGet_eq hwf]
  cases st.toMap.get ns key with
  | error e => rfl
  | ok v =>
    intro hcap
    rw [Except.map, List.take_of_length_le (by omega)]

/-- Setting the flag of a namespace that the scan finds. -/
theorem setFlag_refines (hwf : st.WF) {ns : Bytes} {i : ℕ} {n : StateNs}
    (hns : findNs st ns = some (i, n)) (enabled : Bool) :
    Refines st (setNs st i { n with enabled }, (0 : ℤ))
      (st.toMap.insert ns ⟨enabled, n.bucket.entries⟩, 0) := by
  obtain ⟨hn, hreg, rfl⟩ := findNs_some hns
  have hnwf := hwf.each n (List.mem_of_getElem? hn)
  have hwf' : ({ n with enabled } : StateNs).WF st.maxKeys :=
    ⟨hnwf.registered, hnwf.capacity, hnwf.distinct, hnwf.count_eq, hnwf.key_lt, hnwf.value_fits⟩
  exact .setNs hwf hn hwf' rfl rfl 0

/-- The number of namespaces is the number of names in the map. -/
theorem toMap_card (hwf : st.WF) : st.toMap.keys.card = st.ns.length := by
  rw [StateStore.toMap, hwf.distinct.card_keys StateNs.bucket, List.countP_eq_length]
  exact fun n hn => (hwf.each n hn).registered

theorem edgeStateNsSetEnabled_refines (hwf : st.WF) (ns : Bytes) (enabled alloc : Bool) :
    Refines st (edgeStateNsSetEnabled st ns enabled alloc) (st.toMap.setEnabled ns enabled alloc) := by
  unfold edgeStateNsSetEnabled StateMap.setEnabled
  cases hns : findNs st ns with
  | some p =>
    obtain ⟨i, n⟩ := p
    rw [toMap_lookup_of_findNs hns]
    exact setFlag_refines hwf hns enabled
  | none =>
    have hfits := hwf.fits
    have hsame : Refines st (st, (-1 : ℤ)) (st.toMap, -1) := ⟨hwf, rfl, rfl, rfl⟩
    rw [toMap_lookup_of_findNs_none hns]
    dsimp only
    rw [toMap_card hwf]
    unfold registerNs
    by_cases hname : ns = [] ∨ ns.length ≥ 64
    · rw [if_pos hname, if_pos (by tauto)]
      exact hsame
    rw [if_neg hname, hns]
    dsimp only
    by_cases hfull : st.ns.length ≥ EDGE_STATE_NS_MAX
    · rw [if_pos hfull, if_pos (.inr (.inr (.inl (by omega))))]
      exact hsame
    rw [if_neg hfull]
    cases alloc with
    | false => simpa using hsame
    | true =>
      have hroom : st.ns.length ≠ EDGE_STATE_NS_MAX := by omega
      rw [if_neg (by simp), if_neg (by tauto)]
      obtain ⟨hwf', hmap⟩ := appendNs hwf enabled (by omega) (by omega) hns
      exact ⟨hwf', rfl, hmap, rfl⟩

theorem edgeStateApplyConfig_refines (hwf : st.WF) (cfg : EdgeConfig) (alloc : Bytes → Bool) :
    Refines st (edgeStateApplyConfig st cfg alloc, ()) (st.toMap.applyConfig cfg alloc, ()) := by
  unfold edgeStateApplyConfig StateMap.applyConfig
  induction configuredNs cfg generalizing st with
  | nil => exact ⟨hwf, rfl, rfl, rfl⟩
  | cons p ps ih =>
    have hstep := edgeStateNsSetEnabled_refines hwf p.1 p.2 (alloc p.1)
    have hrest := ih hstep.wf
    rw [List.foldl_cons, List.foldl_cons, ← hstep.toMap]
    exact ⟨hrest.wf, hrest.limits.trans hstep.limits, hrest.toMap, rfl⟩

/-! ## Listing and counting -/

/-- The first `limit` of all matching keys, in any order, are a listing. -/
theorem StateMap.Lists.take {entries : Finmap fun _ : Bytes => Bytes} {pfx : Bytes} {ks : List Bytes}
    (hnodup : ks.Nodup) (hmem : ∀ k, k ∈ ks ↔ k ∈ entries ∧ pfx <+: k) (limit : ℕ) :
    StateMap.Lists entries pfx limit (ks.take limit) where
  nodup := hnodup.sublist (List.take_sublist ..)
  live k hk := (hmem k).mp (List.mem_of_mem_take hk)
  length_le := List.length_take_le ..
  all hcard k hk hpfx := by
    have hset : ks.toFinset = entries.keys.filter (pfx <+: ·) := by
      ext k
      simp [hmem, Finmap.mem_keys]
    rw [← hset, List.toFinset_card_of_nodup hnodup] at hcard
    rw [List.take_of_length_le hcard]
    exact (hmem k).mpr ⟨hk, hpfx⟩

theorem edgeStateList_refines (hwf : st.WF) (ns pfx : Bytes) (maxKeys : ℕ) :
    st.toMap.ListReply ns pfx maxKeys (edgeStateList st ns pfx maxKeys) := by
  unfold edgeStateList
  by_cases hzero : maxKeys = 0
  · rw [if_pos hzero]
    exact .inl hzero
  rw [if_neg hzero]
  cases hns : findNs st ns with
  | none =>
    have hnone := toMap_lookup_of_findNs_none hns
    exact .inr fun b hb => absurd (hnone.symm.trans hb) (by simp)
  | some p =>
    obtain ⟨i, n⟩ := p
    have hnwf := hwf.each n (List.mem_of_getElem? (findNs_some hns).1)
    have hlookup := toMap_lookup_of_findNs hns
    dsimp only
    by_cases hdisabled : (!n.enabled) = true
    · rw [if_pos hdisabled]
      refine .inr fun b hb => ?_
      obtain rfl := Option.some.inj (hlookup.symm.trans hb)
      exact (Bool.not_eq_true' _).mp hdisabled
    rw [if_neg hdisabled]
    have henabled : n.bucket.enabled = true := by
      rwa [Bool.not_eq_true', Bool.not_eq_false] at hdisabled
    refine ⟨by omega, n.bucket, hlookup, henabled, ?_⟩
    -- The scan over the array finds the keys of the map with the prefix, each once.
    set hits := n.entries.filter fun e => e.used && pfx.isPrefixOf e.key with hhits
    have hkeys : hits.map StateEntry.key
        = ((n.entries.filter entryView.live).map entryView.key).filter (pfx.isPrefixOf ·) := by
      rw [List.filter_map, List.filter_filter, hhits]
      congr 2
      funext e
      exact Bool.and_comm ..
    have hlimit : min maxKeys EDGE_STATE_LIST_CAP
        = if maxKeys > EDGE_STATE_LIST_CAP then EDGE_STATE_LIST_CAP else maxKeys := by
      split_ifs <;> omega
    have hcopy : ∀ limit, (hits.take limit).map (fun e => snprintf EDGE_STATE_KEY_MAX e.key)
        = (hits.map StateEntry.key).take limit := by
      intro limit
      rw [← List.map_take]
      refine List.map_congr_left fun e he => snprintf_of_fits ?_
      obtain ⟨hmem, hhit⟩ := List.mem_filter.mp (List.mem_of_mem_take he)
      exact hnwf.key_lt e hmem (by simp at hhit; exact hhit.1)
    rw [hlimit, hcopy]
    refine .take ?_ (fun k => ?_) _
    · rw [hkeys]
      exact hnwf.distinct.nodup_keys.filter _
    · rw [hkeys, List.mem_filter, ← Finmap.mem_keys, StateNs.bucket, SlotView.keys_toFinmap,
        List.mem_toFinset, List.isPrefixOf_iff_prefix]

/-- The counter is the number of live keys. -/
theorem edgeStateCount_refines (hwf : st.WF) (ns : Bytes) :
    edgeStateCount st ns = ((st.toMap.lookup ns).map fun b => b.entries.keys.card).getD 0 := by
  unfold edgeStateCount
  cases hns : findNs st ns with
  | none =>
    rw [toMap_lookup_of_findNs_none hns]
    rfl
  | some p =>
    obtain ⟨i, n⟩ := p
    have hnwf := hwf.each n (List.mem_of_getElem? (findNs_some hns).1)
    rw [toMap_lookup_of_findNs hns]
    exact hnwf.count_eq.trans (hnwf.distinct.card_keys StateEntry.text).symm

/-- `edge_state_ns_enabled` reads the flag. -/
theorem edgeStateNsEnabled_eq (ns : Bytes) :
    edgeStateNsEnabled st ns = (st.toMap.flag ns).getD false := by
  unfold edgeStateNsEnabled StateMap.flag
  cases hns : findNs st ns with
  | none =>
    rw [toMap_lookup_of_findNs_none hns]
    rfl
  | some p =>
    obtain ⟨i, n⟩ := p
    rw [toMap_lookup_of_findNs hns]
    rfl

end Edgehost
