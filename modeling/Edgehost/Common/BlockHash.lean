import Mathlib.Data.List.Basic
import Mathlib.Data.List.Induction
import Mathlib.Data.Nat.ModEq

/-!
# Hashing in blocks

A hash function of the iterated kind cuts a padded message into blocks of `n` elements and folds a
compression function over them. An implementation receives the message piece by piece and keeps the
elements that do not fill a block in a buffer.

* `foldl_pushBlock`: the buffered fold computes the fold over all whole blocks and keeps the rest.
* `foldBlocks_append`: the fold over a message in two parts, the first of whole blocks.
* `fill_least`: the padding of a message is the shortest one that fills its last block.
* `hmac`: a keyed hash from a hash function.
-/

namespace BlockHash

variable {σ β : Type*}

/-! ## Blocks -/

/-- Block `i` of a message. -/
def block (n : ℕ) (msg : List β) (i : ℕ) : List β := (msg.drop (n * i)).take n

/-- The fold of `f` over the whole blocks of a message. -/
def foldBlocks (f : σ → List β → σ) (n : ℕ) (s : σ) (msg : List β) : σ :=
  (List.range (msg.length / n)).foldl (fun s i => f s (block n msg i)) s

/-- What is left of a message behind its whole blocks. -/
def leftover (n : ℕ) (msg : List β) : List β := msg.drop (n * (msg.length / n))

theorem length_leftover (n : ℕ) (msg : List β) : (leftover n msg).length = msg.length % n := by
  have hdiv := Nat.div_add_mod msg.length n
  rw [leftover, List.length_drop]
  omega

theorem leftover_short {n : ℕ} {msg : List β} (h : msg.length < n) : leftover n msg = msg := by
  rw [leftover, Nat.div_eq_of_lt h, Nat.mul_zero, List.drop_zero]

theorem leftover_single {n : ℕ} {msg : List β} (h : msg.length = n) : leftover n msg = [] :=
  List.length_eq_zero_iff.mp (by rw [length_leftover, h, Nat.mod_self])

variable (f : σ → List β → σ) {n : ℕ}

theorem foldBlocks_short (s : σ) {msg : List β} (h : msg.length < n) : foldBlocks f n s msg = s := by
  rw [foldBlocks, Nat.div_eq_of_lt h, List.range_zero, List.foldl_nil]

theorem foldBlocks_single (hn : 0 < n) (s : σ) {msg : List β} (h : msg.length = n) :
    foldBlocks f n s msg = f s msg := by
  rw [foldBlocks, h, Nat.div_self hn]
  simp [block, ← h]

/-- A message in two parts, the first of whole blocks. -/
theorem foldBlocks_append (hn : 0 < n) (s : σ) {a : List β} (ha : n ∣ a.length) (b : List β) :
    foldBlocks f n s (a ++ b) = foldBlocks f n (foldBlocks f n s a) b := by
  obtain ⟨q, hq⟩ := ha
  have hlen : (a ++ b).length / n = q + b.length / n := by
    rw [List.length_append, hq, Nat.mul_add_div hn]
  have hlena : a.length / n = q := by rw [hq, Nat.mul_div_cancel_left q hn]
  have hfirst : ∀ i < q, block n (a ++ b) i = block n a i := by
    intro i hi
    have hle : n * i + n ≤ a.length := by
      rw [hq, ← Nat.mul_succ]
      exact Nat.mul_le_mul_left n hi
    rw [block, List.drop_append_of_le_length (by omega), List.take_append_of_le_length, block]
    rw [List.length_drop]
    omega
  have hsecond : ∀ i, block n (a ++ b) (q + i) = block n b i := by
    intro i
    rw [block, Nat.mul_add, ← hq, List.drop_append, Nat.add_sub_cancel_left,
      List.drop_eq_nil_of_le (Nat.le_add_right _ _), List.nil_append, block]
  rw [foldBlocks, hlen, List.range_add, List.foldl_append, List.foldl_map]
  have hstart : (List.range q).foldl (fun s i => f s (block n (a ++ b) i)) s = foldBlocks f n s a := by
    rw [foldBlocks, hlena]
    exact List.foldl_ext _ _ _ fun s i hi => by rw [hfirst i (List.mem_range.mp hi)]
  simp only [hstart, hsecond]
  rfl

/-- A message is its whole blocks and what is left. -/
theorem foldBlocks_append_leftover (hn : 0 < n) (s : σ) (msg b : List β) :
    foldBlocks f n s (msg ++ b) = foldBlocks f n (foldBlocks f n s msg) (leftover n msg ++ b) := by
  have hle : n * (msg.length / n) ≤ msg.length := Nat.mul_div_le _ _
  have hdvd : n ∣ (msg.take (n * (msg.length / n))).length := by
    rw [List.length_take_of_le hle]
    exact Nat.dvd_mul_right _ _
  have hwhole : foldBlocks f n s msg = foldBlocks f n s (msg.take (n * (msg.length / n))) := by
    conv_lhs => rw [← List.take_append_drop (n * (msg.length / n)) msg]
    rw [foldBlocks_append f hn s hdvd, foldBlocks_short]
    rw [← leftover, length_leftover]
    exact Nat.mod_lt _ hn
  rw [hwhole, ← foldBlocks_append f hn s hdvd, ← List.append_assoc, leftover,
    List.take_append_drop]

theorem leftover_append (hn : 0 < n) (msg b : List β) :
    leftover n (msg ++ b) = leftover n (leftover n msg ++ b) := by
  have hle : n * (msg.length / n) ≤ msg.length := Nat.mul_div_le _ _
  have hdiv : (msg ++ b).length / n = msg.length / n + (leftover n msg ++ b).length / n := by
    rw [List.length_append, List.length_append, length_leftover, ← Nat.mul_add_div hn,
      ← Nat.add_assoc, Nat.div_add_mod]
  rw [leftover, hdiv, Nat.mul_add, ← List.drop_drop, List.drop_append_of_le_length hle]
  rfl

/-- A fold whose states are read in another way. -/
theorem foldl_hom_of_mem {τ γ : Type*} (φ : σ → τ) (g : σ → γ → σ) (g' : τ → γ → τ) {l : List γ}
    (h : ∀ s, ∀ b ∈ l, φ (g s b) = g' (φ s) b) (s : σ) : φ (l.foldl g s) = l.foldl g' (φ s) := by
  induction l generalizing s with
  | nil => rfl
  | cons b l ih =>
    rw [List.foldl_cons, List.foldl_cons, ← h s b List.mem_cons_self]
    exact ih (fun s c hc => h s c (List.mem_cons_of_mem b hc)) _

theorem foldBlocks_hom {τ : Type*} (φ : σ → τ) (f' : τ → List β → τ)
    (h : ∀ s M, φ (f s M) = f' (φ s) M) (s : σ) (msg : List β) :
    φ (foldBlocks f n s msg) = foldBlocks f' n (φ s) msg := by
  rw [foldBlocks, foldBlocks]
  exact foldl_hom_of_mem φ _ _ (fun s i _ => h s (block n msg i)) s

/-! ## Streaming -/

/-- One element more: a full buffer is folded in. -/
def pushBlock (n : ℕ) (p : σ × List β) (b : β) : σ × List β :=
  if (p.2 ++ [b]).length = n then (f p.1 (p.2 ++ [b]), []) else (p.1, p.2 ++ [b])

theorem pushBlock_step (hn : 0 < n) (s : σ) (msg : List β) (b : β) :
    pushBlock f n (foldBlocks f n s msg, leftover n msg) b
      = (foldBlocks f n s (msg ++ [b]), leftover n (msg ++ [b])) := by
  have hlt : (leftover n msg).length < n := by
    rw [length_leftover]
    exact Nat.mod_lt _ hn
  rw [foldBlocks_append_leftover f hn, leftover_append hn, pushBlock]
  by_cases hfull : (leftover n msg ++ [b]).length = n
  · rw [if_pos hfull, foldBlocks_single f hn _ hfull, leftover_single hfull]
  · have hshort : (leftover n msg ++ [b]).length < n := by
      rw [List.length_append, List.length_singleton] at hfull ⊢
      omega
    rw [if_neg hfull, foldBlocks_short f _ hshort, leftover_short hshort]

/-- **The buffered fold.** -/
theorem foldl_pushBlock (hn : 0 < n) (s : σ) (msg : List β) :
    msg.foldl (pushBlock f n) (s, []) = (foldBlocks f n s msg, leftover n msg) := by
  induction msg using List.reverseRecOn with
  | nil => simp [foldBlocks, leftover]
  | append_singleton msg b ih =>
    rw [List.foldl_append, ih, List.foldl_cons, List.foldl_nil, pushBlock_step f hn]

/-- An implementation whose context has the hash value and the buffer as parts. -/
theorem foldl_pushBlock_hom {τ : Type*} (hn : 0 < n) (φ : τ → σ × List β) (g : τ → β → τ)
    (h : ∀ c b, φ (g c b) = pushBlock f n (φ c) b) {c : τ} {s : σ} (hc : φ c = (s, []))
    (msg : List β) : φ (msg.foldl g c) = (foldBlocks f n s msg, leftover n msg) := by
  rw [foldl_hom_of_mem φ g (pushBlock f n) fun c b _ => h c b, hc, foldl_pushBlock f hn]

/-! ## Padding -/

/-- How many fill elements stand between a message of this length with one mark behind it and a length
field of `m` elements, in blocks of `n`. -/
def fill (n m len : ℕ) : ℕ := (n - (len + 1 + m) % n) % n

/-- A message with the mark, the fill and its length field. -/
def padding (n m : ℕ) (mark zero : β) (field : ℕ → List β) (msg : List β) : List β :=
  msg ++ mark :: (List.replicate (fill n m msg.length) zero ++ field msg.length)

theorem dvd_fill (hn : 0 < n) (m len : ℕ) : n ∣ len + 1 + fill n m len + m := by
  have hlt := Nat.mod_lt (len + 1 + m) hn
  rcases Nat.eq_zero_or_pos ((len + 1 + m) % n) with hzero | hpos
  · rw [fill, hzero, Nat.sub_zero, Nat.mod_self, Nat.add_zero]
    exact Nat.dvd_of_mod_eq_zero hzero
  · rw [fill, Nat.mod_eq_of_lt (by omega)]
    refine ⟨(len + 1 + m) / n + 1, ?_⟩
    have hdiv := Nat.div_add_mod (len + 1 + m) n
    rw [Nat.mul_succ]
    omega

/-- **The fill is the shortest** that makes whole blocks. -/
theorem fill_least (hn : 0 < n) (m len k : ℕ) (hk : n ∣ len + 1 + k + m) : fill n m len ≤ k := by
  by_contra hlt
  rw [not_le] at hlt
  have hfill : fill n m len < n := Nat.mod_lt _ hn
  have hdvd : n ∣ fill n m len - k := by
    have h := Nat.dvd_sub (dvd_fill hn m len) hk
    rwa [show len + 1 + fill n m len + m - (len + 1 + k + m) = fill n m len - k by omega] at h
  have hle := Nat.le_of_dvd (by omega) hdvd
  omega

/-- The padded message in blocks: those of the message, and the ones that what is left of it fills. -/
theorem foldBlocks_padding (hn : 0 < n) (m : ℕ) (mark zero : β) (field : ℕ → List β) (s : σ)
    (msg : List β) :
    foldBlocks f n s (padding n m mark zero field msg)
      = foldBlocks f n (foldBlocks f n s msg)
          (leftover n msg ++ mark :: (List.replicate (fill n m msg.length) zero ++ field msg.length)) :=
  foldBlocks_append_leftover f hn s msg _

/-! ## Keyed hashing -/

/-- A key of one block: a longer one is hashed, a shorter one has zeros behind it. -/
def blockKey [Zero β] (hash : List β → List β) (n : ℕ) (key : List β) : List β :=
  let k := if key.length > n then hash key else key
  k ++ List.replicate (n - k.length) 0

/-- A keyed hash: the inner hash of the message under one pad of the key, the outer hash of its result
under the other. -/
def hmac [Zero β] [XorOp β] (hash : List β → List β) (n : ℕ) (ipad opad : β) (key msg : List β) :
    List β :=
  let k := blockKey hash n key
  hash (k.map (· ^^^ opad) ++ hash (k.map (· ^^^ ipad) ++ msg))

end BlockHash
