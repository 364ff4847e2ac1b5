import Edgehost.Common.Fips180
import Edgehost.Core.Base64Laws
import Edgehost.Host.WsAccept

/-!
# The handshake key is that of RFC 6455

* `toHash_sha1Transform` — one block is one compression of FIPS 180-4.
* `sha1Final_update` — the final padding goes through the same update as the message.
* `edgeWsAcceptKey_eq` — the accept key of every `Sec-WebSocket-Key`.
-/

namespace Edgehost

open BlockHash

/-! ## Words -/

@[simp] theorem toBitVec_sha1Word (M : Bytes) (t : ℕ) :
    (sha1Word M (4 * t)).toBitVec = Fips180.word M t :=
  Fips180.toBitVec_ofBytes _ _ _ _

theorem toBitVec_rol1 (x : UInt32) : (sha1Rol x 1).toBitVec = x.toBitVec.rotateLeft 1 := by
  simp [sha1Rol, BitVec.rotateLeft_def]

theorem toBitVec_rol5 (x : UInt32) : (sha1Rol x 5).toBitVec = x.toBitVec.rotateLeft 5 := by
  simp [sha1Rol, BitVec.rotateLeft_def]

theorem toBitVec_rol30 (x : UInt32) : (sha1Rol x 30).toBitVec = x.toBitVec.rotateLeft 30 := by
  simp [sha1Rol, BitVec.rotateLeft_def]

/-- The code joins the two halves of a choice with "or", the standard with "exclusive or". -/
theorem toBitVec_choose (x y z : UInt32) :
    ((x &&& y) ||| (~~~x &&& z)).toBitVec = Fips180.Ch x.toBitVec y.toBitVec z.toBitVec := by
  apply BitVec.eq_of_getLsbD_eq
  intro i hi
  simp only [Fips180.Ch, UInt32.toBitVec_or, UInt32.toBitVec_and, UInt32.toBitVec_not,
    BitVec.getLsbD_or, BitVec.getLsbD_xor, BitVec.getLsbD_and, BitVec.getLsbD_not]
  cases x.toBitVec.getLsbD i <;> simp

theorem toBitVec_majority (x y z : UInt32) :
    ((x &&& y) ||| (x &&& z) ||| (y &&& z)).toBitVec
      = Fips180.Maj x.toBitVec y.toBitVec z.toBitVec := by
  apply BitVec.eq_of_getLsbD_eq
  intro i hi
  simp only [Fips180.Maj, UInt32.toBitVec_or, UInt32.toBitVec_and,
    BitVec.getLsbD_or, BitVec.getLsbD_xor, BitVec.getLsbD_and]
  cases x.toBitVec.getLsbD i <;> cases y.toBitVec.getLsbD i <;> simp

/-! ## The compression -/

/-- The chaining state as a hash value. -/
def Sha1State.toHash (s : Sha1State) : Fips180.Hash1 :=
  ⟨s.a.toBitVec, s.b.toBitVec, s.c.toBitVec, s.d.toBitVec, s.e.toBitVec⟩

theorem toHash_sha1Init : sha1Init.state.toHash = Fips180.initial1 := rfl

/-- The message schedule of a block. -/
def sha1Schedule (M : Bytes) : Array UInt32 :=
  Nat.repeat sha1Extend 64 ((Array.range 16).map fun i => sha1Word M (4 * i))

theorem toBitVec_sha1Schedule (M : Bytes) {t : ℕ} (ht : t < 80) :
    ((sha1Schedule M).getD t 0).toBitVec = Fips180.schedule1 M t := by
  obtain ⟨hsize, hwords⟩ := Fips180.blockWords (toBitVec_sha1Word M)
  refine (Fips180.schedule_repeat hsize (fun t ht => ?_) (fun w hw h => ⟨_, rfl, ?_⟩) 64).2 t ht
  · rw [hwords t ht, Fips180.schedule1, if_pos ht]
  · rw [Fips180.schedule1, if_neg (by omega), ← h _ (by omega), ← h _ (by omega),
      ← h _ (by omega), ← h _ (by omega), toBitVec_rol1, UInt32.toBitVec_xor, UInt32.toBitVec_xor,
      UInt32.toBitVec_xor]

theorem toHash_sha1Round (w : Array UInt32) (v : Sha1State) (t : ℕ) :
    (sha1Round w v t).toHash = Fips180.round1 v.toHash t (w.getD t 0).toBitVec := by
  have hmix : (sha1Mix v t).1.toBitVec
        = Fips180.function1 t v.b.toBitVec v.c.toBitVec v.d.toBitVec ∧
      (sha1Mix v t).2.toBitVec = Fips180.constant1 t := by
    unfold sha1Mix Fips180.function1 Fips180.constant1
    split_ifs
    · exact ⟨toBitVec_choose _ _ _, rfl⟩
    · exact ⟨rfl, rfl⟩
    · exact ⟨toBitVec_majority _ _ _, rfl⟩
    · exact ⟨rfl, rfl⟩
  simp only [sha1Round, Fips180.round1, Sha1State.toHash, UInt32.toBitVec_add, toBitVec_rol5,
    toBitVec_rol30, hmix.1, hmix.2]

/-- **One block is one compression.** -/
theorem toHash_sha1Transform (s : Sha1State) (M : Bytes) :
    (sha1Transform s M).toHash = Fips180.compress1 s.toHash M := by
  have hrounds := foldl_hom_of_mem Sha1State.toHash
    (sha1Round (sha1Schedule M))
    (fun v t => Fips180.round1 v t (Fips180.schedule1 M t)) (l := List.range 80) (fun v t ht => by
      rw [toHash_sha1Round, toBitVec_sha1Schedule M (List.mem_range.mp ht)]) s
  rw [Fips180.compress1, ← hrounds, sha1Transform, ← sha1Schedule]
  ext1 <;> exact BitVec.add_comm _ _

/-! ## Streaming -/

/-- The context after a whole message. -/
theorem sha1Update_init (msg : Bytes) :
    (sha1Update sha1Init msg).state = foldBlocks sha1Transform 64 sha1Init.state msg ∧
      (sha1Update sha1Init msg).buffer = leftover 64 msg := by
  refine Prod.mk.inj (foldl_pushBlock_hom sha1Transform (by omega)
    (fun ctx : Sha1Ctx => (ctx.state, ctx.buffer)) sha1Push (fun ctx b => ?_) rfl msg)
  rw [sha1Push, pushBlock]
  dsimp only
  split_ifs <;> rfl

/-- The bytes counted. -/
theorem count_sha1Update (ctx : Sha1Ctx) (msg : Bytes) :
    (sha1Update ctx msg).count = ctx.count + UInt64.ofNat msg.length := by
  induction msg generalizing ctx with
  | nil => exact (UInt64.add_zero _).symm
  | cons b msg ih =>
    have hpush : (sha1Push ctx b).count = ctx.count + 1 := by
      unfold sha1Push
      dsimp only
      split_ifs <;> rfl
    have hstep : sha1Update ctx (b :: msg) = sha1Update (sha1Push ctx b) msg := rfl
    rw [hstep, ih, hpush, List.length_cons, UInt64.ofNat_add, UInt64.add_assoc,
      UInt64.add_comm (UInt64.ofNat _)]
    rfl

theorem sha1Update_append (ctx : Sha1Ctx) (a b : Bytes) :
    sha1Update (sha1Update ctx a) b = sha1Update ctx (a ++ b) := (List.foldl_append ..).symm

/-- **Any sequence of updates hashes the whole message.** -/
theorem sha1_streaming (pieces : List Bytes) :
    pieces.foldl sha1Update sha1Init = sha1Update sha1Init pieces.flatten := by
  rw [sha1Update, List.foldl_flatten]
  rfl

/-- The padding that the code feeds is the one of the standard. -/
theorem sha1_pad (msg : Bytes) :
    msg ++ 0x80 :: List.replicate ((if msg.length % 64 < 56 then 56 - msg.length % 64
        else 120 - msg.length % 64) - 1) 0 ++ Fips180.bigEndian 8 (8 * msg.length)
      = Fips180.pad msg := by
  have hfill : (if msg.length % 64 < 56 then 56 - msg.length % 64 else 120 - msg.length % 64) - 1
      = fill 64 8 msg.length := by
    rw [Fips180.fill_eq]
    split_ifs <;> omega
  rw [hfill, Fips180.pad, padding, List.append_assoc, List.cons_append]

/-- The digest of a message given at once: the padding is fed like more of the message. -/
theorem sha1Final_update (msg : Bytes) :
    sha1Final (sha1Update sha1Init msg) = Fips180.sha1 msg := by
  have hcount : (sha1Update sha1Init msg).count * 8 = UInt64.ofNat (8 * msg.length) := by
    rw [count_sha1Update, Nat.mul_comm, UInt64.ofNat_mul]
    exact congrArg (· * 8) (UInt64.zero_add _)
  have hidx : (sha1Update sha1Init msg).buffer.length = msg.length % 64 := by
    rw [(sha1Update_init msg).2, length_leftover]
  have hhash := foldBlocks_hom (n := 64) sha1Transform Sha1State.toHash Fips180.compress1
    toHash_sha1Transform sha1Init.state (Fips180.pad msg)
  rw [toHash_sha1Init] at hhash
  rw [sha1Final]
  simp only [hcount, hidx, Fips180.lengthField_eq, sha1Update_append, sha1_pad]
  rw [(sha1Update_init (Fips180.pad msg)).1, Fips180.sha1, ← hhash]
  simp only [List.flatMap_cons, List.flatMap_nil, Fips180.toBytes_eq, Sha1State.toHash]

/-! ## The accept key -/

/-- The GUID of RFC 6455. -/
def wsGuid : Bytes := bytes "258EAFA5-E914-47DA-95CA-C5AB0DC85B11"

/-- A key without the blanks around it: spaces and tabs in front, these and line ends behind. -/
structure Trimmed (s t : Bytes) : Prop where
  around : ∃ front back, s = front ++ t ++ back ∧ (∀ c ∈ front, c = 32 ∨ c = 9) ∧
    ∀ c ∈ back, isKeyBlank c = true
  head : ∀ c ∈ t.head?, c ≠ 32 ∧ c ≠ 9
  last : ∀ c ∈ t.getLast?, isKeyBlank c = false

theorem rdropWhile_append_of_all {p : UInt8 → Bool} {s back : Bytes} (h : ∀ c ∈ back, p c = true) :
    (s ++ back).rdropWhile p = s.rdropWhile p := by
  induction back using List.reverseRecOn with
  | nil => rw [List.append_nil]
  | append_singleton back c ih =>
    rw [← List.append_assoc, List.rdropWhile_concat_pos _ _ _ (h c (by simp))]
    exact ih fun d hd => h d (List.mem_append_left _ hd)

/-- The two loops trim the key. -/
theorem Trimmed.eq {s t : Bytes} (h : Trimmed s t) :
    (s.dropWhile fun c => c = 32 || c = 9).rdropWhile isKeyBlank = t := by
  obtain ⟨⟨front, back, rfl, hfront, hback⟩, hhead, hlast⟩ := h
  have hdrop : ∀ c ∈ front, (decide (c = 32) || decide (c = 9)) = true := by
    intro c hc
    simpa using hfront c hc
  rw [List.append_assoc, List.dropWhile_append_of_pos hdrop]
  cases t with
  | nil =>
    have hall : ∀ c ∈ back.dropWhile (fun c => c = 32 || c = 9), isKeyBlank c = true :=
      fun c hc => hback c ((List.dropWhile_suffix _).subset hc)
    exact rdropWhile_append_of_all (s := []) hall
  | cons c t =>
    obtain ⟨h32, h9⟩ := hhead c rfl
    rw [List.cons_append, List.dropWhile_cons_of_neg (by simp [h32, h9]), ← List.cons_append,
      rdropWhile_append_of_all hback, List.rdropWhile_eq_self_iff]
    intro hne
    rw [hlast _ (List.getLast?_eq_some_getLast hne)]
    exact Bool.false_ne_true

/-- **The accept key of the handshake.** A key of 1 to 63 bytes, without the blanks around it, is answered
with the base64 of the SHA-1 of the key and the GUID, any other with -1; and the hash of a message is
the one of FIPS 180-4, in whatever pieces it is fed. -/
theorem edgeWsAcceptKey_eq :
    (∀ secWsKey key, Trimmed secWsKey key →
      edgeWsAcceptKey secWsKey
        = if 1 ≤ key.length ∧ key.length ≤ 63 then some (base64 (Fips180.sha1 (key ++ wsGuid)))
          else none) ∧
    ∀ pieces : List Bytes,
      sha1Final (pieces.foldl sha1Update sha1Init) = Fips180.sha1 pieces.flatten := by
  refine ⟨fun secWsKey key htrim => ?_, fun pieces => by rw [sha1_streaming, sha1Final_update]⟩
  have hlen : (Fips180.sha1 (key ++ wsGuid)).length = 20 := by
    simp [Fips180.sha1, Fips180.length_bigEndian]
  rw [edgeWsAcceptKey, htrim.eq, ← wsGuid, sha1Final_update, EDGE_WS_KEY_MAX]
  by_cases hkey : 1 ≤ key.length ∧ key.length ≤ 63
  · rw [if_pos hkey, if_neg, b64Encode_standard (by rw [hlen]; decide), b64Groups_eq_base64]
    rw [← List.length_eq_zero_iff]
    omega
  · rw [if_neg hkey, if_pos]
    rw [← List.length_eq_zero_iff]
    omega

/-- The key of the protocol's own example, with blanks around it. -/
theorem edgeWsAcceptKey_sample : ∃ secWsKey, Trimmed secWsKey (bytes "dGhlIHNhbXBsZSBub25jZQ==") ∧
    edgeWsAcceptKey secWsKey
      = if 1 ≤ (bytes "dGhlIHNhbXBsZSBub25jZQ==").length ∧ (bytes "dGhlIHNhbXBsZSBub25jZQ==").length ≤ 63
        then some (base64 (Fips180.sha1 (bytes "dGhlIHNhbXBsZSBub25jZQ==" ++ wsGuid))) else none := by
  have htrim : Trimmed (bytes " " ++ bytes "dGhlIHNhbXBsZSBub25jZQ==" ++ bytes "\r\n")
      (bytes "dGhlIHNhbXBsZSBub25jZQ==") :=
    ⟨⟨bytes " ", bytes "\r\n", rfl, by decide +kernel, by decide +kernel⟩, by decide +kernel,
      by decide +kernel⟩
  exact ⟨_, htrim, edgeWsAcceptKey_eq.1 _ _ htrim⟩

end Edgehost
