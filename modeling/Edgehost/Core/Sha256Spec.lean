import Edgehost.Common.Fips180
import Edgehost.Core.Sha256
import Mathlib.Tactic.IntervalCases

/-!
# The hash of `auth_rbac.c` is SHA-256

The code hashes byte by byte and pads in its buffer; the standard folds a compression over the padded
message.

* `toHash_sha256Transform` — one block is one compression.
* `sha256_streaming` — any sequence of updates hashes the whole message.
* `sha256_fips` — so does the MAC, as RFC 2104 composes it.
-/

namespace Edgehost

open BlockHash

/-! ## Words and bytes -/

@[simp] theorem toBitVec_sha256Word (M : Bytes) (t : ℕ) :
    (sha256Word M (4 * t)).toBitVec = Fips180.word M t :=
  Fips180.toBitVec_ofBytes _ _ _ _

/-- The table of the code: the cube roots of the first 64 primes. -/
theorem sha256K_eq : sha256K.map UInt32.toBitVec = Fips180.constants256 := by
  decide +kernel

/-! ## The compression -/

/-- The chaining state as a hash value. -/
def Sha256State.toHash (s : Sha256State) : Fips180.Hash256 :=
  ⟨s.a.toBitVec, s.b.toBitVec, s.c.toBitVec, s.d.toBitVec, s.e.toBitVec, s.f.toBitVec, s.g.toBitVec,
    s.h.toBitVec⟩

/-- The initial state: the square roots of the first eight primes. -/
theorem toHash_sha256Init : sha256Init.state.toHash = Fips180.initial256 := by
  have ha : sha256Init.state.a.toBitVec = Fips180.rootBits 2 2 := by decide +kernel
  have hb : sha256Init.state.b.toBitVec = Fips180.rootBits 2 3 := by decide +kernel
  have hc : sha256Init.state.c.toBitVec = Fips180.rootBits 2 5 := by decide +kernel
  have hd : sha256Init.state.d.toBitVec = Fips180.rootBits 2 7 := by decide +kernel
  have he : sha256Init.state.e.toBitVec = Fips180.rootBits 2 11 := by decide +kernel
  have hf : sha256Init.state.f.toBitVec = Fips180.rootBits 2 13 := by decide +kernel
  have hg : sha256Init.state.g.toBitVec = Fips180.rootBits 2 17 := by decide +kernel
  have hh : sha256Init.state.h.toBitVec = Fips180.rootBits 2 19 := by decide +kernel
  rw [Sha256State.toHash, ha, hb, hc, hd, he, hf, hg, hh, Fips180.initial256]

theorem toBitVec_smallSigma0 (x : UInt32) :
    (rotr x 7 ^^^ rotr x 18 ^^^ (x >>> 3)).toBitVec = Fips180.smallSigma0 x.toBitVec := by
  simp [rotr, Fips180.smallSigma0, BitVec.rotateRight_def]

theorem toBitVec_smallSigma1 (x : UInt32) :
    (rotr x 17 ^^^ rotr x 19 ^^^ (x >>> 10)).toBitVec = Fips180.smallSigma1 x.toBitVec := by
  simp [rotr, Fips180.smallSigma1, BitVec.rotateRight_def]

theorem toBitVec_bigSigma0 (x : UInt32) :
    (rotr x 2 ^^^ rotr x 13 ^^^ rotr x 22).toBitVec = Fips180.bigSigma0 x.toBitVec := by
  simp [rotr, Fips180.bigSigma0, BitVec.rotateRight_def]

theorem toBitVec_bigSigma1 (x : UInt32) :
    (rotr x 6 ^^^ rotr x 11 ^^^ rotr x 25).toBitVec = Fips180.bigSigma1 x.toBitVec := by
  simp [rotr, Fips180.bigSigma1, BitVec.rotateRight_def]

theorem toBitVec_ch (x y z : UInt32) :
    ((x &&& y) ^^^ (~~~x &&& z)).toBitVec = Fips180.Ch x.toBitVec y.toBitVec z.toBitVec := rfl

theorem toBitVec_maj (x y z : UInt32) :
    ((x &&& y) ^^^ (x &&& z) ^^^ (y &&& z)).toBitVec
      = Fips180.Maj x.toBitVec y.toBitVec z.toBitVec := rfl

theorem toBitVec_sha256Schedule (M : Bytes) {t : ℕ} (ht : t < 64) :
    ((sha256Schedule M).getD t 0).toBitVec = Fips180.schedule256 M t := by
  obtain ⟨hsize, hwords⟩ := Fips180.blockWords (toBitVec_sha256Word M)
  refine (Fips180.schedule_repeat hsize (fun t ht => ?_) (fun m hm h => ⟨_, rfl, ?_⟩) 48).2 t ht
  · rw [hwords t ht, Fips180.schedule256, if_pos ht]
  · rw [Fips180.schedule256, if_neg (by omega), ← h _ (by omega), ← h _ (by omega),
      ← h _ (by omega), ← h _ (by omega), UInt32.toBitVec_add, UInt32.toBitVec_add,
      UInt32.toBitVec_add, toBitVec_smallSigma0, toBitVec_smallSigma1]
    ac_rfl

theorem toHash_sha256Round (v : Sha256State) (k m : UInt32) :
    (sha256Round v k m).toHash = Fips180.round256 v.toHash k.toBitVec m.toBitVec := by
  simp only [sha256Round, Fips180.round256, Sha256State.toHash, UInt32.toBitVec_add,
    toBitVec_bigSigma0, toBitVec_bigSigma1, toBitVec_ch, toBitVec_maj]

/-- **One block is one compression.** -/
theorem toHash_sha256Transform (s : Sha256State) (M : Bytes) :
    (sha256Transform s M).toHash = Fips180.compress256 s.toHash M := by
  have hk : ∀ t, (sha256K.getD t 0).toBitVec = Fips180.constants256.getD t 0 := by
    intro t
    rw [← sha256K_eq]
    simp [List.getD_eq_getElem?_getD]
  have hrounds := foldl_hom_of_mem Sha256State.toHash
    (fun v i => sha256Round v (sha256K.getD i 0) ((sha256Schedule M).getD i 0))
    (fun v t => Fips180.round256 v (Fips180.constants256.getD t 0) (Fips180.schedule256 M t))
    (l := List.range 64) (fun v t ht => by
      rw [toHash_sha256Round, hk, toBitVec_sha256Schedule M (List.mem_range.mp ht)]) s
  rw [Fips180.compress256, ← hrounds, sha256Transform]
  ext1 <;> exact BitVec.add_comm _ _

/-! ## Streaming -/

/-- The context after a whole message: its blocks are folded in, the rest is in the buffer. -/
theorem sha256Update_init (msg : Bytes) :
    (sha256Update sha256Init msg).state = foldBlocks sha256Transform 64 sha256Init.state msg ∧
      (sha256Update sha256Init msg).data = leftover 64 msg := by
  refine Prod.mk.inj (foldl_pushBlock_hom sha256Transform (by omega)
    (fun ctx : Sha256Ctx => (ctx.state, ctx.data)) sha256Push (fun ctx b => ?_) rfl msg)
  rw [sha256Push, pushBlock]
  dsimp only
  split_ifs <;> rfl

/-- The bits counted, those in the buffer included. -/
theorem bitlen_sha256Update_init (msg : Bytes) :
    (sha256Update sha256Init msg).bitlen
        + UInt64.ofNat (sha256Update sha256Init msg).data.length * 8
      = UInt64.ofNat (8 * msg.length) := by
  induction msg using List.reverseRecOn with
  | nil => rfl
  | append_singleton msg b ih =>
    have hstep : sha256Update sha256Init (msg ++ [b]) = sha256Push (sha256Update sha256Init msg) b := by
      rw [sha256Update, sha256Update, List.foldl_append, List.foldl_cons, List.foldl_nil]
    have hlt : (sha256Update sha256Init msg).data.length < 64 := by
      rw [(sha256Update_init msg).2, length_leftover]
      exact Nat.mod_lt _ (by omega)
    have hlen : UInt64.ofNat (8 * (msg ++ [b]).length) = UInt64.ofNat (8 * msg.length) + 8 := by
      rw [List.length_append, List.length_singleton, Nat.mul_add, UInt64.ofNat_add]
      rfl
    rw [hstep, hlen, ← ih, sha256Push]
    split_ifs with hfull
    · have hdata : (sha256Update sha256Init msg).data.length = 63 := by
        rw [List.length_append, List.length_singleton] at hfull
        omega
      have hblock : UInt64.ofNat 63 * 8 + 8 = 512 := by decide
      rw [hdata, UInt64.add_assoc _ (UInt64.ofNat 63 * 8), hblock]
      exact UInt64.add_zero _
    · rw [List.length_append, List.length_singleton, UInt64.ofNat_add, UInt64.add_mul,
        ← UInt64.add_assoc]
      rfl

/-- **Any sequence of updates hashes the whole message.** -/
theorem sha256_streaming (pieces : List Bytes) :
    pieces.foldl sha256Update sha256Init = sha256Update sha256Init pieces.flatten := by
  rw [sha256Update, List.foldl_flatten]
  rfl

/-- The chaining state that is written out: the buffer and the padding are one block, or two where the
length field does not fit the first. -/
def sha256FinalState (ctx : Sha256Ctx) (field : Bytes) : Sha256State :=
  if ctx.data.length < 56 then
    sha256Transform ctx.state
      (ctx.data ++ 0x80 :: (List.replicate (55 - ctx.data.length) 0 ++ field))
  else
    sha256Transform
      (sha256Transform ctx.state (ctx.data ++ 0x80 :: List.replicate (63 - ctx.data.length) 0))
      (List.replicate 56 0 ++ field)

theorem sha256Final_eq (ctx : Sha256Ctx) {n : ℕ}
    (hbits : ctx.bitlen + UInt64.ofNat ctx.data.length * 8 = UInt64.ofNat n) :
    let s := sha256FinalState ctx (Fips180.bigEndian 8 n)
    sha256Final ctx = [s.a, s.b, s.c, s.d, s.e, s.f, s.g, s.h].flatMap sha256WordBytes := by
  have hfield : sha256Length (ctx.bitlen + UInt64.ofNat ctx.data.length * 8) = Fips180.bigEndian 8 n := by
    rw [hbits]
    exact Fips180.lengthField_eq n
  simp only [sha256Final, sha256FinalState, hfield]
  split_ifs with hshort
  · simp only [List.append_assoc, List.cons_append]
  · rfl

/-- The padding in the buffer is that of the whole message. -/
theorem sha256FinalState_eq (ctx : Sha256Ctx) {msg : Bytes} (hdata : ctx.data = leftover 64 msg)
    (hstate : ctx.state = foldBlocks sha256Transform 64 sha256Init.state msg) :
    sha256FinalState ctx (Fips180.bigEndian 8 (8 * msg.length))
      = foldBlocks sha256Transform 64 sha256Init.state (Fips180.pad msg) := by
  have hlen : ctx.data.length = msg.length % 64 := by rw [hdata, length_leftover]
  have hfield := Fips180.length_bigEndian 8 (8 * msg.length)
  rw [Fips180.pad, foldBlocks_padding _ (by omega), ← hstate, ← hdata, Fips180.fill_eq, ← hlen,
    sha256FinalState]
  split_ifs with hshort
  · rw [foldBlocks_single _ (by omega)]
    simp only [List.length_append, List.length_cons, List.length_replicate, hfield]
    omega
  · -- The first block ends with zeros, the second has 56 more in front of the length.
    have hfirst : (ctx.data ++ 0x80 :: List.replicate (63 - ctx.data.length) (0 : UInt8)).length = 64 := by
      simp only [List.length_append, List.length_cons, List.length_replicate]
      omega
    have hsecond : (List.replicate 56 (0 : UInt8) ++ Fips180.bigEndian 8 (8 * msg.length)).length = 64 := by
      rw [List.length_append, List.length_replicate, hfield]
    have hsplit : ctx.data ++ 0x80 :: (List.replicate (63 - ctx.data.length + 56) 0 ++
        Fips180.bigEndian 8 (8 * msg.length))
          = (ctx.data ++ 0x80 :: List.replicate (63 - ctx.data.length) 0) ++
            (List.replicate 56 0 ++ Fips180.bigEndian 8 (8 * msg.length)) := by
      rw [List.replicate_add]
      simp only [List.append_assoc, List.cons_append]
    rw [hsplit, foldBlocks_append _ (by omega) _ (by rw [hfirst]), foldBlocks_single _ (by omega) _ hfirst,
      foldBlocks_single _ (by omega) _ hsecond]

/-- The digest of a message given at once. -/
theorem sha256Final_update (msg : Bytes) :
    sha256Final (sha256Update sha256Init msg) = Fips180.sha256 msg := by
  obtain ⟨hstate, hdata⟩ := sha256Update_init msg
  have hhash := foldBlocks_hom (n := 64) sha256Transform Sha256State.toHash Fips180.compress256
    toHash_sha256Transform sha256Init.state (Fips180.pad msg)
  rw [toHash_sha256Init] at hhash
  rw [sha256Final_eq _ (bitlen_sha256Update_init msg), sha256FinalState_eq _ hdata hstate,
    Fips180.sha256, ← hhash]
  simp only [List.flatMap_cons, List.flatMap_nil, sha256WordBytes, Fips180.toBytes_eq,
    Sha256State.toHash]

/-! ## The MAC -/

/-- **The hash and the MAC of the code are the standard ones.** A message fed in any pieces has the digest
of FIPS 180-4; where it is shorter than 2⁶¹ bytes, its length in bits fits the length field. -/
theorem sha256_fips :
    (∀ pieces : List Bytes,
      sha256Final (pieces.foldl sha256Update sha256Init) = Fips180.sha256 pieces.flatten) ∧
    ∀ key msg : Bytes, hmacSha256 key msg = Fips180.hmacSha256 key msg := by
  have hpieces : ∀ pieces : List Bytes,
      sha256Final (pieces.foldl sha256Update sha256Init) = Fips180.sha256 pieces.flatten := by
    intro pieces
    rw [sha256_streaming, sha256Final_update]
  refine ⟨hpieces, fun key msg => ?_⟩
  have htwo : ∀ a b : Bytes, sha256Final (sha256Update (sha256Update sha256Init a) b)
      = Fips180.sha256 (a ++ b) := by
    intro a b
    have h := hpieces [a, b]
    rwa [List.flatten_cons, List.flatten_cons, List.flatten_nil, List.append_nil] at h
  rw [hmacSha256, Fips180.hmacSha256, hmac, blockKey]
  simp only [htwo, sha256Final_update]

end Edgehost
