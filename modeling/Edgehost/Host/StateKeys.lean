import Edgehost.Host.StateReplies

/-!
# The grammar of keys

Header and decision record give the keys as `[a-z0-9_./:-]{1,128}`. The store keeps a key and its
terminator in 128 bytes and refuses what does not fit, so that the longest keys of the grammar cannot
be stored; `keyAgrees_iff` says that these are the only ones.
-/

namespace Edgehost

/-- The characters of a key. -/
def keyCharset : Bytes := bytes "abcdefghijklmnopqrstuvwxyz0123456789_./:-"

/-- The documented grammar of keys. -/
structure KeyGrammar (k : Bytes) : Prop where
  length_pos : 1 ≤ k.length
  length_le : k.length ≤ 128
  chars : ∀ c ∈ k, c ∈ keyCharset

/-- A key can be stored and read back: in every store that the operations reach, where its namespace is
enabled and has room for it, with any value that the store takes. -/
def StoresKey (k : Bytes) : Prop :=
  ∀ (cfg : EdgeStateConfig) (st : StateStore), ReachedStore cfg st →
    ∀ (ns value : Bytes) (b : Bucket) (outCap : ℕ), st.toMap.lookup ns = some b →
      b.enabled = true → (k ∈ b.entries ∨ b.entries.keys.card < st.maxKeys) →
      value.length ≤ st.maxValue → edgeStateJsonOk value = true → value.length < outCap →
      (edgeStatePut st ns k value).2 = .ok ∧
        edgeStateGet (edgeStatePut st ns k value).1 ns k outCap = .ok (value, value.length)

/-- The check of a key agrees with the grammar, and the keys of the grammar can be stored. -/
def KeyAgrees (k : Bytes) : Prop :=
  (edgeStateKeyValid k = true ↔ KeyGrammar k) ∧ (KeyGrammar k → StoresKey k)

theorem keyByteOk_iff (c : UInt8) : keyByteOk c = true ↔ c ∈ keyCharset :=
  forall_byte (P := fun c => keyByteOk c = true ↔ c ∈ keyCharset) (by decide +kernel) c

/-- **What the check accepts**: the grammar, up to 127 characters. -/
theorem edgeStateKeyValid_iff (k : Bytes) :
    edgeStateKeyValid k = true ↔ KeyGrammar k ∧ k.length ≠ 128 := by
  have hchars : k.all keyByteOk = true ↔ ∀ c ∈ k, c ∈ keyCharset := by
    simp only [List.all_eq_true, keyByteOk_iff]
  have hmax : EDGE_STATE_KEY_MAX = 128 := rfl
  unfold edgeStateKeyValid
  by_cases hempty : k = []
  · rw [if_pos hempty]
    refine ⟨fun h => absurd h (by decide), fun h => ?_⟩
    exact absurd h.1.length_pos (by rw [hempty]; decide)
  have hpos : 1 ≤ k.length := List.length_pos_iff.mpr hempty
  rw [if_neg hempty]
  by_cases hlong : k.length > EDGE_STATE_KEY_MAX - 1
  · rw [if_pos hlong]
    refine ⟨fun h => absurd h (by decide), fun h => ?_⟩
    have := h.1.length_le
    have := h.2
    omega
  · rw [if_neg hlong, hchars]
    constructor
    · intro h
      exact ⟨⟨hpos, by omega, h⟩, by omega⟩
    · intro h
      exact h.1.chars

/-- A key that the check accepts can be stored and read back. -/
theorem storesKey_of_valid {k : Bytes} (hvalid : edgeStateKeyValid k = true) : StoresKey k := by
  intro cfg st hst ns value b outCap hb hon hroom hlen hjson hcap
  have hput : st.toMap.put st.limits ns k value =
      (st.toMap.insert ns { b with entries := b.entries.insert k value }, .ok) := by
    unfold StateMap.put
    rw [hb]
    dsimp only
    rw [hon, hvalid, hjson, if_neg (by decide), if_neg (by decide),
      if_neg (show ¬value.length > st.limits.maxValue from not_lt.mpr hlen), if_neg (by decide),
      if_neg]
    rintro ⟨hnone, hfull⟩
    rcases hroom with hin | hroom
    · exact Finmap.lookup_eq_none.mp hnone hin
    · exact absurd hfull (Nat.ne_of_lt hroom)
  have href := edgeStatePut_refines hst.wf ns k value
  rw [hput] at href
  refine ⟨href.ret, ?_⟩
  have hget : (edgeStatePut st ns k value).1.toMap.get ns k = .ok value := by
    unfold StateMap.get
    rw [href.toMap, Finmap.lookup_insert]
    dsimp only
    rw [hon, hvalid, Finmap.lookup_insert]
    rfl
  have hread := edgeStateGet_refines href.wf ns k outCap
  rw [hget] at hread
  exact hread hcap

/-- **Which keys work as documented**: all but those of 128 characters. -/
theorem keyAgrees_iff (k : Bytes) :
    KeyAgrees k ↔ ¬(k.length = 128 ∧ ∀ c ∈ k, c ∈ keyCharset) := by
  rw [KeyAgrees, edgeStateKeyValid_iff]
  constructor
  · rintro ⟨hvalid, -⟩ ⟨hlen, hchars⟩
    exact (hvalid.mpr ⟨by omega, by omega, hchars⟩).2 hlen
  · intro hlong
    have hshort : KeyGrammar k → k.length ≠ 128 := fun hk hlen => hlong ⟨hlen, hk.chars⟩
    refine ⟨⟨And.left, fun hk => ⟨hk, hshort hk⟩⟩, fun hk => ?_⟩
    exact storesKey_of_valid ((edgeStateKeyValid_iff k).mpr ⟨hk, hshort hk⟩)

/-- A key of 128 characters. -/
def longestKey : Bytes := List.replicate 128 (charByte 'a')

/-- The grammar has this key, but a new store does not take it. -/
theorem not_keyAgrees_longestKey :
    ¬ KeyAgrees longestKey ∧ KeyGrammar longestKey ∧
      (edgeStatePut (edgeStateCreateWithConfig ⟨1, 8⟩) (bytes "net.core") longestKey (bytes "1")).2 =
        .badKey := by
  have hgrammar : KeyGrammar longestKey := by
    have hlen : longestKey.length = 128 := List.length_replicate
    refine ⟨by omega, by omega, fun c hc => ?_⟩
    obtain rfl := List.eq_of_mem_replicate hc
    decide
  have hvalid : edgeStateKeyValid longestKey = false := by decide +kernel
  refine ⟨fun h => ?_, hgrammar, by decide +kernel⟩
  exact absurd (h.1.mpr hgrammar) (by rw [hvalid]; decide)

end Edgehost
