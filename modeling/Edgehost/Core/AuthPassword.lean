import Edgehost.Core.AuthIssued

/-!
# The lab password

The comparison runs over the longer of the two texts, up to 128 bytes, with zero bytes behind the
shorter one, and collects all differences in one byte. The two lengths go into the same byte, which
keeps their difference modulo 256.

* `passwordOk_iff` is what the comparison accepts.
* `passwordOk_exact_iff` says for which candidates this is equality.
-/

namespace Edgehost

/-- The password with zero bytes behind it, as far as the comparison looks. -/
def paddedPassword (pw : Bytes) : Bytes :=
  pw ++ List.replicate (EDGE_AUTH_PASSWORD_MAX - pw.length) 0

/-- A longer candidate which the comparison cannot tell from the password. -/
def FoldsToPassword (pw candidate : Bytes) : Prop :=
  candidate.length ≠ pw.length ∧ candidate.length % 256 = pw.length % 256 ∧
    candidate.take EDGE_AUTH_PASSWORD_MAX = paddedPassword pw

/-- The byte of the lengths is zero when they agree modulo 256. -/
theorem ofNat_xor_eq_zero_iff (m n : ℕ) : UInt8.ofNat (m ^^^ n) = 0 ↔ m % 256 = n % 256 := by
  rw [← UInt8.toNat_inj, UInt8.toNat_ofNat', UInt8.toNat_zero, Nat.xor_mod_two_pow,
    Nat.xor_eq_zero_iff]

/-- **What the comparison accepts.** -/
theorem passwordOk_iff {ctx : EdgeAuthCtx} (hpw : ctx.labPassword ≠ []) (candidate : Bytes) :
    edgeAuthPasswordOk ctx candidate = true ↔
      (∀ i < min (max ctx.labPassword.length candidate.length) EDGE_AUTH_PASSWORD_MAX,
        candidate.getD i 0 = ctx.labPassword.getD i 0) ∧
      candidate.length % 256 = ctx.labPassword.length % 256 := by
  have hlen : ¬ ctx.labPassword.length = 0 := fun h => hpw (List.length_eq_zero_iff.mp h)
  simp only [edgeAuthPasswordOk, if_neg hlen, decide_eq_true_iff, UInt8.or_eq_zero_iff,
    foldl_or_eq_zero_iff, UInt8.xor_eq_zero_iff, ofNat_xor_eq_zero_iff]
  exact and_congr_right fun _ => eq_comm

theorem getD_paddedPassword (pw : Bytes) (i : ℕ) : (paddedPassword pw).getD i 0 = pw.getD i 0 := by
  rcases Nat.lt_or_ge i pw.length with h | h
  · rw [paddedPassword, List.getD_append _ _ _ _ h]
  · rw [paddedPassword, List.getD_append_right _ _ _ _ h, List.getD_eq_default _ _ h]
    simp

/-- Where the two lengths are the same, every byte is compared. -/
theorem passwordOk_sameLength {ctx : EdgeAuthCtx} (hpw : ctx.labPassword ≠ [])
    (hmax : ctx.labPassword.length ≤ 127) {candidate : Bytes}
    (hlen : candidate.length = ctx.labPassword.length) :
    edgeAuthPasswordOk ctx candidate = true ↔ candidate = ctx.labPassword := by
  rw [passwordOk_iff hpw, hlen, and_iff_left rfl, max_self, EDGE_AUTH_PASSWORD_MAX,
    min_eq_left (by omega)]
  refine ⟨fun h => List.ext_getElem hlen fun i hi hi' => ?_, fun h i _ => by rw [h]⟩
  have hbyte := h i hi'
  rwa [List.getD_eq_getElem _ _ hi, List.getD_eq_getElem _ _ hi'] at hbyte

/-- Where they differ, the candidate is accepted when its first 128 bytes look like the password. -/
theorem passwordOk_otherLength {ctx : EdgeAuthCtx} (hpw : ctx.labPassword ≠ [])
    (hmax : ctx.labPassword.length ≤ 127) {candidate : Bytes}
    (hlen : candidate.length ≠ ctx.labPassword.length) :
    edgeAuthPasswordOk ctx candidate = true ↔ FoldsToPassword ctx.labPassword candidate := by
  rw [passwordOk_iff hpw, FoldsToPassword, and_iff_right hlen, and_comm]
  refine and_congr_right fun hmod => ?_
  -- The lengths agree modulo 256, so the candidate is the longer one by 256 bytes or more.
  have hlong : EDGE_AUTH_PASSWORD_MAX ≤ candidate.length := by
    rw [EDGE_AUTH_PASSWORD_MAX]
    omega
  have hpad : (paddedPassword ctx.labPassword).length = EDGE_AUTH_PASSWORD_MAX := by
    rw [paddedPassword, List.length_append, List.length_replicate, EDGE_AUTH_PASSWORD_MAX]
    omega
  have htake : (candidate.take EDGE_AUTH_PASSWORD_MAX).length = EDGE_AUTH_PASSWORD_MAX :=
    List.length_take_of_le hlong
  rw [min_eq_right (hlong.trans (le_max_right _ _))]
  constructor
  · intro h
    refine List.ext_getElem (htake.trans hpad.symm) fun i hi hi' => ?_
    have hbyte := h i (htake ▸ hi)
    rw [← getD_paddedPassword ctx.labPassword, List.getD_eq_getElem _ _ hi',
      List.getD_eq_getElem _ _ ((htake ▸ hi).trans_le hlong)] at hbyte
    rwa [List.getElem_take]
  · intro h i hi
    have hi' : i < (candidate.take EDGE_AUTH_PASSWORD_MAX).length := htake.symm ▸ hi
    rw [← getD_paddedPassword ctx.labPassword, ← h, List.getD_eq_getElem _ _ hi', List.getElem_take,
      List.getD_eq_getElem _ _ (hi.trans_le hlong)]

/-- **When the check is equality.** It is for every candidate but those longer by a multiple of 256
bytes whose first 128 bytes are the password and zero bytes. -/
theorem passwordOk_exact_iff (ctx : EdgeAuthCtx) (candidate : Bytes) (hpw : ctx.labPassword ≠ [])
    (hmax : ctx.labPassword.length ≤ 127) :
    (edgeAuthPasswordOk ctx candidate = true ↔ candidate = ctx.labPassword) ↔
      ¬ FoldsToPassword ctx.labPassword candidate := by
  by_cases hlen : candidate.length = ctx.labPassword.length
  · exact iff_of_true (passwordOk_sameLength hpw hmax hlen) fun h => h.1 hlen
  · have hne : candidate ≠ ctx.labPassword := fun h => hlen (congrArg List.length h)
    rw [iff_false_right hne, passwordOk_otherLength hpw hmax hlen]

theorem passwordOk_reversed : (edgeAuthPasswordOk labCtx (bytes "terc3s") = true ↔
    bytes "terc3s" = labCtx.labPassword) ↔ ¬ FoldsToPassword labCtx.labPassword (bytes "terc3s") :=
  passwordOk_exact_iff labCtx (bytes "terc3s") (by decide) (by decide)

/-- A candidate of 262 bytes is taken for the password of 6. -/
theorem passwordOk_of_zeros :
    edgeAuthPasswordOk labCtx (bytes "s3cret" ++ List.replicate 256 0) = true ∧
      bytes "s3cret" ++ List.replicate 256 0 ≠ labCtx.labPassword := by
  have hlen : (bytes "s3cret" ++ List.replicate 256 0).length ≠ labCtx.labPassword.length := by
    rw [List.length_append, List.length_replicate]
    decide
  refine ⟨(passwordOk_otherLength (by decide) (by decide) hlen).mpr ⟨hlen, ?_, ?_⟩,
    fun h => hlen (congrArg List.length h)⟩
  · rw [List.length_append, List.length_replicate]
    decide
  · rw [List.take_append, List.take_replicate]
    rfl

end Edgehost
