import Edgehost.Host.PluginHost
import Edgehost.Host.StateReplies

/-!
# What a plugin reads from the state store

`state_get` of the host API passes the plugin's buffer on to `edge_state_get`, which copies what fits it
with a terminator and returns the length of the whole value. The plugin sees a success in either case.

* `apiStateGet_eq` is the call in terms of what the store holds.
* `readsExactly_iff` says when the plugin's buffer holds the value it was told of.
-/

namespace Edgehost

variable {P : Type*}

/-- The plugin's buffer after a call that copied these bytes; a buffer of no bytes is not written to. -/
def bufferAfter (buf copied : Bytes) : Bytes :=
  if buf.length > 0 then copied ++ 0 :: buf.drop (copied.length + 1) else buf

/-- The value that the store of the host holds. -/
def StoredValue (h : EdgePluginHost P) (ns key : Option Bytes) (v : Bytes) : Prop :=
  ∃ st ns' key', h.state = some st ∧ ns = some ns' ∧ key = some key' ∧ st.toMap.get ns' key' = .ok v

/-- A call that succeeds with length `n` has written the stored value to the first `n` bytes of the
buffer, whose length is the capacity passed in. -/
def ReadsExactly (h : EdgePluginHost P) (ns key : Option Bytes) (buf : Bytes) : Prop :=
  ∀ copied n, apiStateGet h ns key true (some buf.length) = .got copied n →
    n ≤ buf.length ∧ ∃ v, StoredValue h ns key v ∧ (bufferAfter buf copied).take n = v

/-- There is room for the terminator, or it falls on a byte of the same value. -/
def ReadFits (v : Bytes) (cap : ℕ) : Prop :=
  v.length < cap ∨ (v.length = cap ∧ ∀ b ∈ v.getLast?, b = 0)

theorem StoredValue.unique {h : EdgePluginHost P} {ns key : Option Bytes} {v w : Bytes}
    (hv : StoredValue h ns key v) (hw : StoredValue h ns key w) : v = w := by
  obtain ⟨st₁, n₁, k₁, hst₁, hn₁, hk₁, hv⟩ := hv
  obtain ⟨st₂, n₂, k₂, hst₂, hn₂, hk₂, hw⟩ := hw
  obtain rfl := Option.some.inj (hst₁.symm.trans hst₂)
  obtain rfl := Option.some.inj (hn₁.symm.trans hn₂)
  obtain rfl := Option.some.inj (hk₁.symm.trans hk₂)
  exact Except.ok.inj (hv.symm.trans hw)

/-- **The call** in terms of what the store holds. -/
theorem apiStateGet_eq {h : EdgePluginHost P} {st : StateStore} (hst : h.state = some st)
    (hwf : st.WF) (ns key : Bytes) (cap : ℕ) :
    apiStateGet h (some ns) (some key) true (some cap)
      = match st.toMap.get ns key with
        | .error _ => .status (-1)
        | .ok v => .got (v.take (min v.length (cap - 1))) v.length := by
  simp only [apiStateGet, hst, edgeStateGet_eq hwf]
  cases st.toMap.get ns key with
  | error e => rfl
  | ok v => rfl

theorem apiStateGet_got {h : EdgePluginHost P} {st : StateStore} (hst : h.state = some st)
    (hwf : st.WF) {ns key : Option Bytes} {cap n : ℕ} {copied : Bytes} :
    apiStateGet h ns key true (some cap) = .got copied n ↔
      ∃ v, StoredValue h ns key v ∧ copied = v.take (min v.length (cap - 1)) ∧ n = v.length := by
  cases ns with
  | none => simp [apiStateGet, hst, StoredValue]
  | some ns =>
    cases key with
    | none => simp [apiStateGet, hst, StoredValue]
    | some key =>
      have hstored : ∀ v, StoredValue h (some ns) (some key) v ↔ st.toMap.get ns key = .ok v := by
        intro v
        simp [StoredValue, hst]
      simp only [apiStateGet_eq hst hwf, hstored]
      cases st.toMap.get ns key with
      | error e => simp
      | ok v => simp [eq_comm]

/-- What the buffer holds of a value. -/
theorem take_bufferAfter_iff (v buf : Bytes) :
    (v.length ≤ buf.length ∧
      (bufferAfter buf (v.take (min v.length (buf.length - 1)))).take v.length = v) ↔
      ReadFits v buf.length := by
  rcases Nat.lt_trichotomy v.length buf.length with hlt | heq | hgt
  · -- the value and its terminator fit
    refine iff_of_true ⟨hlt.le, ?_⟩ (Or.inl hlt)
    rw [bufferAfter, if_pos (by omega), min_eq_left (by omega), List.take_length, List.take_left]
  · -- the terminator takes the place of the last byte
    rw [ReadFits, and_iff_right heq.le, or_iff_right (by omega), and_iff_right heq, ← heq]
    rcases List.eq_nil_or_concat' v with rfl | ⟨w, b, rfl⟩
    · simp
    · have hcopied : (w ++ [b]).take (min (w ++ [b]).length ((w ++ [b]).length - 1)) = w := by
        simp
      have hpos : buf.length > 0 := by
        rw [← heq]
        simp
      have hall : buf.drop (w.length + 1) = [] := by
        rw [List.drop_eq_nil_iff, ← heq]
        simp
      rw [hcopied, bufferAfter, if_pos hpos, hall, List.take_of_length_le (by simp)]
      simp [eq_comm]
  · exact iff_of_false (fun h => by omega) fun h => by
      rcases h with h | ⟨h, -⟩
      · omega
      · omega

/-- **When a plugin can trust the length.** For a store as the host's operations leave it, the buffer
holds the value exactly if there is room for the terminator, or the value fills the buffer and ends in a
zero byte itself. -/
theorem readsExactly_iff {cfg : EdgeStateConfig} (h : EdgePluginHost P) (st : StateStore)
    (hst : h.state = some st) (hreached : ReachedStore cfg st) (ns key : Option Bytes) (buf : Bytes) :
    ReadsExactly h ns key buf ↔ ∀ v, StoredValue h ns key v → ReadFits v buf.length := by
  constructor
  · intro hexact v hv
    obtain ⟨hle, w, hw, htake⟩ :=
      hexact _ _ ((apiStateGet_got hst hreached.wf).mpr ⟨v, hv, rfl, rfl⟩)
    obtain rfl := hv.unique hw
    exact (take_bufferAfter_iff v buf).mp ⟨hle, htake⟩
  · intro hfits copied n hgot
    obtain ⟨v, hv, rfl, rfl⟩ := (apiStateGet_got hst hreached.wf).mp hgot
    obtain ⟨hle, htake⟩ := (take_bufferAfter_iff v buf).mpr (hfits v hv)
    exact ⟨hle, v, hv, htake⟩

/-! ## A small store -/

/-- Room for one key in each namespace, and for values of eight bytes. -/
def shortValues : EdgeStateConfig := ⟨1, 8⟩

/-- The store after a put of `"abc"`. -/
def storeOfAbc : StateStore :=
  (edgeStatePut (edgeStateCreateWithConfig shortValues) (bytes "net.core") (bytes "k")
    (quoted (bytes "abc"))).1

theorem reachedStore_abc : ReachedStore shortValues storeOfAbc :=
  ⟨[.put (bytes "net.core") (bytes "k") (quoted (bytes "abc"))], rfl⟩

/-- A host on this store. -/
def hostOfAbc : EdgePluginHost Unit := edgePluginHostCreate 1 (some storeOfAbc)

theorem readsExactly_abc :
    ReadsExactly hostOfAbc (some (bytes "net.core")) (some (bytes "k")) (List.replicate 6 0) ↔
      ∀ v, StoredValue hostOfAbc (some (bytes "net.core")) (some (bytes "k")) v →
        ReadFits v (List.replicate 6 (0 : UInt8)).length :=
  readsExactly_iff hostOfAbc storeOfAbc rfl reachedStore_abc _ _ _

/-- With a buffer of three bytes a plugin is told of five, and with one of five the last is overwritten. -/
theorem not_readsExactly_abc :
    ¬ ReadsExactly hostOfAbc (some (bytes "net.core")) (some (bytes "k")) (List.replicate 3 0) ∧
      ¬ ReadsExactly hostOfAbc (some (bytes "net.core")) (some (bytes "k")) (List.replicate 5 0) := by
  constructor
  · intro hexact
    have hgot : apiStateGet hostOfAbc (some (bytes "net.core")) (some (bytes "k")) true (some 3)
        = .got (charByte '"' :: bytes "a") 5 := by decide +kernel
    exact absurd (hexact _ _ hgot).1 (by decide)
  · intro hexact
    have hgot : apiStateGet hostOfAbc (some (bytes "net.core")) (some (bytes "k")) true (some 5)
        = .got (charByte '"' :: bytes "abc") 5 := by decide +kernel
    have hwhole : apiStateGet hostOfAbc (some (bytes "net.core")) (some (bytes "k")) true (some 9)
        = .got (quoted (bytes "abc")) 5 := by decide +kernel
    obtain ⟨-, v, hv, htake⟩ := hexact _ _ hgot
    obtain ⟨w, hw, hcopied, -⟩ := (apiStateGet_got rfl reachedStore_abc.wf).mp hwhole
    obtain rfl := hv.unique hw
    rw [← htake] at hcopied
    exact absurd hcopied (by decide +kernel)

end Edgehost
