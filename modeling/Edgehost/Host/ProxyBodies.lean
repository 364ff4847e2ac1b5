import Edgehost.Common.TextSearch
import Edgehost.Host.OpenaiProxy

/-!
# The body check of the OpenAI proxy

`body_looks_ok` searches a short body as a C string and a long one byte by byte. Each way misses a key that
the other finds: the C string ends at a NUL, and the scan stops one place before the end of the body.

* `bodyLooksOk_iff_searched` — both ways as one search, in the part of the body that is looked at.
* `bodyLooksOk_exact_iff`    — the check is right exactly when the first key is within that part.
-/

namespace Edgehost

/-- The first byte that is no white space opens an object. -/
def StartsObject (body : Bytes) : Prop :=
  (body.dropWhile isBodySpace).head? = some (charByte '\x7b')

instance (body : Bytes) : Decidable (StartsObject body) := inferInstanceAs (Decidable (_ = _))

/-- What the check is for: the body opens an object and mentions a model. -/
def MentionsModel (body : Bytes) : Prop := StartsObject body ∧ modelKey <:+: body

/-- The part of a body in which the check looks for the key. -/
def searchedPart (body : Bytes) : Bytes := if body.length < 96 then cstr body else body.dropLast

/-- The key is missed: it is there, but behind a NUL in a short body, or only at the very end of a long
one. -/
def KeyMissed (body : Bytes) : Prop :=
  StartsObject body ∧ ∃ before after, body = before ++ (modelKey ++ after) ∧
    FirstAt (fun t => modelKey <+: t) before (modelKey ++ after) ∧
    if body.length < 96 then 0 ∈ before else after = []

theorem searchedPart_front (body : Bytes) : searchedPart body <+: body := by
  unfold searchedPart
  split
  · exact List.takeWhile_prefix _
  · exact List.dropLast_prefix body

/-- **Both ways are one search.** -/
theorem bodyLooksOk_iff_searched {body method : Bytes} (hmethod : method ≠ bytes "GET")
    (hlen : 2 ≤ body.length) :
    bodyLooksOk body method = true ↔ StartsObject body ∧ modelKey <:+: searchedPart body := by
  unfold bodyLooksOk searchedPart
  rw [if_neg hmethod, if_neg (Nat.not_lt.mpr hlen)]
  by_cases hstart : (body.dropWhile isBodySpace).head? = some (charByte '\x7b')
  · rw [if_neg (not_not.mpr hstart)]
    have hstart : StartsObject body := hstart
    split <;> rw [isSome_strstr_iff, and_iff_right hstart]
  · rw [if_pos hstart]
    exact ⟨fun h => absurd h Bool.false_ne_true, fun h => absurd h.1 hstart⟩

/-- The part that is looked at ends before the first key is complete exactly where the key is missed. -/
theorem isInfix_searchedPart_iff {body before after : Bytes}
    (hbody : body = before ++ (modelKey ++ after))
    (hfirst : FirstAt (fun t => modelKey <+: t) before (modelKey ++ after)) :
    modelKey <:+: searchedPart body ↔ ¬(if body.length < 96 then 0 ∈ before else after = []) := by
  rw [hfirst.isInfix_iff (hbody ▸ searchedPart_front body)]
  unfold searchedPart
  by_cases hshort : body.length < 96
  · rw [if_pos hshort, if_pos hshort, hbody]
    constructor
    · intro hle hnul
      -- The C string reaches past `before`, so it holds every byte of it.
      have hfront : before <+: cstr (before ++ (modelKey ++ after)) :=
        List.prefix_of_prefix_length_le (List.prefix_append _ _) (List.takeWhile_prefix _) (by omega)
      exact nul_not_mem_cstr _ (hfront.mem hnul)
    · intro hnul
      rw [cstr_append hnul, cstr_append (by decide)]
      simp only [List.length_append]
      omega
  · have hkey : 0 < modelKey.length := by decide
    rw [if_neg hshort, if_neg hshort, List.length_dropLast, hbody, ← ne_eq, ← List.length_pos_iff]
    simp only [List.length_append]
    omega

/-- **What the check accepts**: the bodies that mention a model where the check looks for it. -/
theorem bodyLooksOk_iff {body method : Bytes} (hmethod : method ≠ bytes "GET")
    (hlen : 2 ≤ body.length) :
    bodyLooksOk body method = true ↔ MentionsModel body ∧ ¬KeyMissed body := by
  rw [bodyLooksOk_iff_searched hmethod hlen]
  constructor
  · rintro ⟨hstart, hin⟩
    refine ⟨⟨hstart, hin.trans (searchedPart_front body).isInfix⟩, ?_⟩
    rintro ⟨-, before, after, hbody, hfirst, hmissed⟩
    exact (isInfix_searchedPart_iff hbody hfirst).mp hin hmissed
  · rintro ⟨⟨hstart, u, v, huv⟩, hnot⟩
    have hkey : modelKey <+: modelKey ++ v := List.prefix_append modelKey v
    obtain ⟨before, t, hbody, hfirst⟩ :=
      exists_firstAt (P := fun t => modelKey <+: t) (huv.symm.trans (List.append_assoc u _ v)) hkey
    obtain ⟨after, rfl⟩ := hfirst.1
    refine ⟨hstart, (isInfix_searchedPart_iff hbody hfirst).mpr fun hmissed => hnot ?_⟩
    exact ⟨hstart, before, after, hbody, hfirst, hmissed⟩

/-- A body whose key is missed mentions a model all the same. -/
theorem KeyMissed.mentionsModel {body : Bytes} (h : KeyMissed body) : MentionsModel body := by
  obtain ⟨hstart, before, after, hbody, -⟩ := h
  exact ⟨hstart, before, after, by rw [hbody, List.append_assoc]⟩

/-- **When the check is right**: for a body with a method other than GET it accepts exactly the bodies that
mention a model, unless the key is missed. -/
theorem bodyLooksOk_exact_iff {body method : Bytes} (hmethod : method ≠ bytes "GET")
    (hlen : 2 ≤ body.length) :
    (bodyLooksOk body method = true ↔ MentionsModel body) ↔ ¬KeyMissed body := by
  rw [bodyLooksOk_iff hmethod hlen]
  exact ⟨fun h hmissed => (h.mpr hmissed.mentionsModel).2 hmissed,
    fun h => and_iff_left h⟩

/-- The check at an object of one member. -/
theorem bodyLooksOk_exact_iff_short :
    (bodyLooksOk (bytes "\x7b\"model\":1\x7d") (bytes "POST") = true ↔
      MentionsModel (bytes "\x7b\"model\":1\x7d")) ↔ ¬KeyMissed (bytes "\x7b\"model\":1\x7d") :=
  bodyLooksOk_exact_iff (by decide) (by decide)

/-- A short body with a NUL before its key, and a body of 96 bytes that ends in its key. -/
theorem not_bodyLooksOk_exact :
    (∃ body : Bytes, body = charByte '\x7b' :: 0 :: modelKey ∧
      ¬(bodyLooksOk body (bytes "POST") = true ↔ MentionsModel body)) ∧
    ∃ body : Bytes, body = charByte '\x7b' :: List.replicate 88 32 ++ modelKey ∧
      ¬(bodyLooksOk body (bytes "POST") = true ↔ MentionsModel body) := by
  have hmention : ∀ s : Bytes, MentionsModel (charByte '\x7b' :: s ++ modelKey) := fun s =>
    ⟨rfl, (List.suffix_append _ modelKey).isInfix⟩
  refine ⟨⟨_, rfl, fun h => ?_⟩, _, rfl, fun h => ?_⟩
  · exact absurd (h.mpr (hmention [0])) (by decide +kernel)
  · exact absurd (h.mpr (hmention _)) (by decide +kernel)

end Edgehost
