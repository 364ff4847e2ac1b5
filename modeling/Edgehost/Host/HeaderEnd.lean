import Edgehost.Common.TextSearch
import Edgehost.Host.PutFeeds
import Edgehost.Host.StateViews

/-!
# Where the headers end

`mark_body_off` looks for the first CRLFCRLF or LFLF in the bytes of a request. Its loop runs while there is
room for four bytes, so a LFLF with fewer than two bytes behind it is not seen, and a request with such a
short body is never complete.

* `findBodyOff_eq_some_iff` — the search finds the end of the headers, unless it comes late.
* `bodyFound_iff`           — the body is found, and not waited for in vain, exactly then.
-/

namespace Edgehost

variable {η P υ : Type*}

/-! ## Terminators -/

/-- The empty line of a header block whose lines end in LF. -/
def lf2 : Bytes := [10, 10]

/-- A header block may end here. -/
def StartsEnd (t : Bytes) : Prop := crlf2 <+: t ∨ lf2 <+: t

/-- The first terminator of `acc` is `term`, with `head` before it and `rest` behind it. -/
structure EndsAt (acc head term rest : Bytes) : Prop where
  text : acc = head ++ (term ++ rest)
  term_eq : term = crlf2 ∨ term = lf2
  first : FirstAt StartsEnd head (term ++ rest)

/-- The first terminator ends before `off`. -/
def HeadersEnd (acc : Bytes) (off : ℕ) : Prop :=
  ∃ head term rest, EndsAt acc head term rest ∧ off = head.length + term.length

/-- The first terminator is a LFLF with fewer than two bytes behind it. -/
def LateEnd (acc : Bytes) : Prop := ∃ head rest, EndsAt acc head lf2 rest ∧ rest.length < 2

/-- The two terminators differ in their first byte. -/
theorem crlf2_append_ne (a b : Bytes) : crlf2 ++ a ≠ lf2 ++ b := fun h =>
  absurd (List.cons.inj h).1 (by decide)

theorem EndsAt.unique {acc head head' term term' rest rest' : Bytes} (h : EndsAt acc head term rest)
    (h' : EndsAt acc head' term' rest') : head = head' ∧ term = term' ∧ rest = rest' := by
  obtain ⟨hhead, htail⟩ := h.first.unique h'.first (h.text.symm.trans h'.text)
  refine ⟨hhead, ?_⟩
  rcases h.term_eq with rfl | rfl <;> rcases h'.term_eq with rfl | rfl
  · exact ⟨rfl, List.append_cancel_left htail⟩
  · exact absurd htail (crlf2_append_ne rest rest')
  · exact absurd htail.symm (crlf2_append_ne rest' rest)
  · exact ⟨rfl, List.append_cancel_left htail⟩

/-- Where there is a terminator, there is a first one. -/
theorem exists_endsAt {acc a t : Bytes} (hacc : acc = a ++ t) (ht : StartsEnd t) :
    ∃ head term rest, EndsAt acc head term rest := by
  obtain ⟨head, t', heq, hfirst⟩ := exists_firstAt hacc ht
  rcases hfirst.1 with ⟨rest, rfl⟩ | ⟨rest, rfl⟩
  · exact ⟨head, crlf2, rest, heq, .inl rfl, hfirst⟩
  · exact ⟨head, lf2, rest, heq, .inr rfl, hfirst⟩

/-- The headers end somewhere exactly when the bytes hold a terminator. -/
theorem exists_headersEnd_iff {acc : Bytes} :
    (∃ off, HeadersEnd acc off) ↔ crlf2 <:+: acc ∨ lf2 <:+: acc := by
  constructor
  · rintro ⟨off, head, term, rest, h, -⟩
    have hin : term <:+: acc := ⟨head, rest, by rw [h.text, List.append_assoc]⟩
    rcases h.term_eq with rfl | rfl
    · exact .inl hin
    · exact .inr hin
  · intro h
    have hplace : ∃ a t, acc = a ++ t ∧ StartsEnd t := by
      rcases h with ⟨a, b, hab⟩ | ⟨a, b, hab⟩
      · exact ⟨a, crlf2 ++ b, by rw [← hab, List.append_assoc], .inl (List.prefix_append _ _)⟩
      · exact ⟨a, lf2 ++ b, by rw [← hab, List.append_assoc], .inr (List.prefix_append _ _)⟩
    obtain ⟨a, t, hacc, ht⟩ := hplace
    obtain ⟨head, term, rest, hends⟩ := exists_endsAt hacc ht
    exact ⟨_, head, term, rest, hends, rfl⟩

/-! ## The search -/

theorem findBodyOff_of_short {s : Bytes} (h : s.length < 4) : findBodyOff s = none := by
  rcases s with _ | ⟨c, s⟩
  · rfl
  · rw [findBodyOff, if_pos h]

theorem findBodyOff_crlf2 (rest : Bytes) : findBodyOff (crlf2 ++ rest) = some 4 := by
  have hlen : ¬(crlf2 ++ rest).length < 4 := by
    rw [List.length_append]
    exact Nat.not_lt.mpr (Nat.le_add_right 4 _)
  exact (if_neg hlen).trans (if_pos (List.isPrefixOf_iff_prefix.mpr (List.prefix_append _ _)))

/-- A LFLF is seen if there are two bytes behind it. -/
theorem findBodyOff_lf2 (rest : Bytes) :
    findBodyOff (lf2 ++ rest) = if rest.length < 2 then none else some 2 := by
  have hlen : (lf2 ++ rest).length = 2 + rest.length := List.length_append
  by_cases hlate : rest.length < 2
  · rw [if_pos hlate, findBodyOff_of_short (by omega)]
  · have hlong : ¬(lf2 ++ rest).length < 4 := by omega
    have hnot : ¬crlf2 <+: lf2 ++ rest := not_prefix_of_ne (by decide)
    have hlf : [10, 10].isPrefixOf (lf2 ++ rest) = true :=
      List.isPrefixOf_iff_prefix.mpr (List.prefix_append _ _)
    rw [if_neg hlate]
    refine (if_neg hlong).trans ((if_neg ?_).trans (if_pos hlf))
    rwa [List.isPrefixOf_iff_prefix]

/-- The search passes over what stands before the first terminator. -/
theorem findBodyOff_first {head t : Bytes} (h : FirstAt StartsEnd head t) :
    findBodyOff (head ++ t) = (findBodyOff t).map (· + head.length) := by
  induction head with
  | nil => exact (Option.map_id' (x := findBodyOff t)).symm
  | cons c head ih =>
    obtain ⟨hskip, htail⟩ := firstAt_cons.mp h
    have hskip := not_or.mp hskip
    rw [List.cons_append]
    by_cases hlen : (c :: (head ++ t)).length < 4
    · have hshort : t.length < 4 := by
        rw [List.length_cons, List.length_append] at hlen
        omega
      rw [findBodyOff_of_short hlen, findBodyOff_of_short hshort]
      rfl
    · rw [findBodyOff_cons (Nat.not_lt.mp hlen) hskip.1 hskip.2, ih htail, Option.map_map]
      refine congrArg (Option.map · _) (funext fun n => ?_)
      exact Nat.add_assoc n head.length 1

/-- What the search finds is a terminator. -/
theorem exists_startsEnd_of_findBodyOff {acc : Bytes} {off : ℕ} (h : findBodyOff acc = some off) :
    ∃ a t, acc = a ++ t ∧ StartsEnd t := by
  induction acc generalizing off with
  | nil => cases h
  | cons c s ih =>
    by_cases hhere : StartsEnd (c :: s)
    · exact ⟨[], c :: s, rfl, hhere⟩
    · obtain ⟨hend, hlf⟩ := not_or.mp hhere
      by_cases hlen : (c :: s).length < 4
      · rw [findBodyOff_of_short hlen] at h
        cases h
      · rw [findBodyOff_cons (Nat.not_lt.mp hlen) hend hlf] at h
        obtain ⟨off', hoff, -⟩ := Option.map_eq_some_iff.mp h
        obtain ⟨a, t, rfl, ht⟩ := ih hoff
        exact ⟨c :: a, t, rfl, ht⟩

/-- **The search at a first terminator.** -/
theorem EndsAt.findBodyOff {acc head term rest : Bytes} (h : EndsAt acc head term rest) :
    findBodyOff acc
      = if term = lf2 ∧ rest.length < 2 then none else some (head.length + term.length) := by
  rw [h.text, findBodyOff_first h.first]
  rcases h.term_eq with rfl | rfl
  · rw [findBodyOff_crlf2, if_neg fun hlate => absurd hlate.1 (by decide), Option.map_some, Nat.add_comm]
    rfl
  · rw [findBodyOff_lf2]
    by_cases hlate : rest.length < 2
    · rw [if_pos hlate, if_pos ⟨rfl, hlate⟩, Option.map_none]
    · rw [if_neg hlate, if_neg fun h => hlate h.2, Option.map_some, Nat.add_comm]
      rfl

theorem EndsAt.lateEnd_iff {acc head term rest : Bytes} (h : EndsAt acc head term rest) :
    LateEnd acc ↔ term = lf2 ∧ rest.length < 2 := by
  constructor
  · rintro ⟨head', rest', h', hlate⟩
    obtain ⟨-, rfl, rfl⟩ := h.unique h'
    exact ⟨rfl, hlate⟩
  · rintro ⟨rfl, hlate⟩
    exact ⟨head, rest, h, hlate⟩

/-- **What the search finds**: the end of the headers, unless it comes late. -/
theorem findBodyOff_eq_some_iff {acc : Bytes} {off : ℕ} :
    findBodyOff acc = some off ↔ HeadersEnd acc off ∧ ¬LateEnd acc := by
  constructor
  · intro h
    obtain ⟨a, t, hacc, ht⟩ := exists_startsEnd_of_findBodyOff h
    obtain ⟨head, term, rest, hends⟩ := exists_endsAt hacc ht
    rw [hends.findBodyOff, Option.ite_none_left_eq_some] at h
    exact ⟨⟨head, term, rest, hends, (Option.some.inj h.2).symm⟩, fun hlate =>
      h.1 (hends.lateEnd_iff.mp hlate)⟩
  · rintro ⟨⟨head, term, rest, hends, rfl⟩, hnot⟩
    rw [hends.findBodyOff, if_neg fun hlate => hnot (hends.lateEnd_iff.mpr hlate)]

/-- What is found in the first bytes is found in all of them. -/
theorem findBodyOff_append {a : Bytes} {off : ℕ} (h : findBodyOff a = some off) (b : Bytes) :
    findBodyOff (a ++ b) = some off := by
  induction a generalizing off with
  | nil => cases h
  | cons c s ih =>
    by_cases hlen : (c :: s).length < 4
    · rw [findBodyOff_of_short hlen] at h
      cases h
    rw [List.cons_append]
    -- With four bytes at hand, what comes behind decides nothing here.
    have hsame : ∀ n : Bytes, n.length ≤ 4 → (n <+: c :: (s ++ b) ↔ n <+: c :: s) := fun n hn =>
      ⟨fun hp => List.prefix_of_prefix_length_le hp (List.prefix_append (c :: s) b) (by omega),
        fun hp => hp.trans (List.prefix_append (c :: s) b)⟩
    by_cases hhere : StartsEnd (c :: s)
    · rcases hhere with ⟨rest, heq⟩ | ⟨rest, heq⟩
      · rw [← heq, findBodyOff_crlf2] at h
        rw [← List.cons_append, ← heq, List.append_assoc, findBodyOff_crlf2, h]
      · have hlf : (lf2 ++ rest).length = 2 + rest.length := List.length_append
        have hrest : ¬rest.length < 2 := by
          rw [← heq, hlf] at hlen
          omega
        rw [← heq, findBodyOff_lf2, if_neg hrest] at h
        rw [← List.cons_append, ← heq, List.append_assoc, findBodyOff_lf2,
          if_neg (by rw [List.length_append]; omega), h]
    · obtain ⟨hend, hlf⟩ := not_or.mp hhere
      rw [findBodyOff_cons (Nat.not_lt.mp hlen) hend hlf] at h
      obtain ⟨off', hoff, rfl⟩ := Option.map_eq_some_iff.mp h
      have hlong : 4 ≤ (c :: (s ++ b)).length :=
        (Nat.not_lt.mp hlen).trans (List.prefix_append (c :: s) b).length_le
      rw [findBodyOff_cons hlong (mt (hsame crlf2 (by decide)).mp hend)
        (mt (hsame lf2 (by decide)).mp hlf), ih hoff]
      rfl

/-! ## The body -/

/-- The connection with the body where it was found in the bytes that had come earlier. -/
def markedEarly (s : EdgeHttp1Serve η) (early : Bytes) : EdgeHttp1Serve η :=
  { s with bodyOff := findBodyOff early }

/-- The body is found: `mark_body_off` sets the offset exactly when the bytes hold a terminator, to the place
behind the first one; and once as many bytes have come as the request says, wherever the search was made
before, the request is complete and a PUT does not ask for more. Without a body to wait for, a request is
dispatched with the bytes in which its headers end. -/
def BodyFound (env : ServeEnv η P υ) (s : EdgeHttp1Serve η) : Prop :=
  ((markBodyOff { s with bodyOff := none }).bodyOff.isSome ↔ crlf2 <:+: s.acc ∨ lf2 <:+: s.acc) ∧
  (∀ off, (markBodyOff { s with bodyOff := none }).bodyOff = some off → HeadersEnd s.acc off) ∧
  ∀ off early, HeadersEnd s.acc off → s.contentLength ≤ ((s.acc.drop off).length : ℤ) → early <+: s.acc →
    (waitFullBody (markedEarly s early)).2 = true ∧
    (s.headersDone → ∃ s', readyRequest (markedEarly s early) = some s' ∧
      (s.method = bytes "PUT" → 0 < s.contentLength ∨ early = s.acc →
        ∀ w outCap st p, (statePutRoute env s' w outCap st p).isSome))

theorem markBodyOff_bodyOff (s : EdgeHttp1Serve η) :
    (markBodyOff { s with bodyOff := none }).bodyOff = findBodyOff s.acc := by
  unfold markBodyOff
  rcases findBodyOff s.acc with _ | off <;> rfl

/-- Wherever the search was made before, it is made again until it finds the end. -/
theorem locateBody_markedEarly {s : EdgeHttp1Serve η} {early : Bytes} (hearly : early <+: s.acc)
    {off : ℕ} (h : findBodyOff s.acc = some off) :
    locateBody (markedEarly s early) = { s with bodyOff := some off } := by
  unfold locateBody markedEarly
  rcases he : findBodyOff early with _ | off'
  · exact markBodyOff_of_find h
  · obtain ⟨b, hb⟩ := hearly
    have hsame := findBodyOff_append he b
    rw [hb, h] at hsame
    rw [hsame]

/-- A request whose body has come is complete. -/
theorem waitFullBody_of_found {s : EdgeHttp1Serve η} {early : Bytes} (hearly : early <+: s.acc) {off : ℕ}
    (h : findBodyOff s.acc = some off) (hbody : s.contentLength ≤ ((s.acc.drop off).length : ℤ)) :
    (waitFullBody (markedEarly s early)).2 = true ∧
      (0 < s.contentLength → (waitFullBody (markedEarly s early)).1 = { s with bodyOff := some off }) := by
  have hlocate := locateBody_markedEarly hearly h
  rw [List.length_drop] at hbody
  by_cases hlen : s.contentLength ≤ 0
  · have hwait : waitFullBody (markedEarly s early) = (markedEarly s early, true) := if_pos hlen
    exact ⟨congrArg Prod.snd hwait, fun hpos => absurd hpos (Int.not_lt.mpr hlen)⟩
  · have hwait : waitFullBody (markedEarly s early) = ({ s with bodyOff := some off }, true) := by
      refine (if_neg hlen).trans ?_
      rw [hlocate]
      exact congrArg _ (decide_eq_true hbody)
    exact ⟨congrArg Prod.snd hwait, fun _ => congrArg Prod.fst hwait⟩

/-- A PUT with its body is not put off. -/
theorem isSome_statePutRoute {env : ServeEnv η P υ} {s : EdgeHttp1Serve η} {off : ℕ}
    (hbody : s.contentLength ≤ ((s.acc.drop off).length : ℤ)) (w : ServeWorld P υ) (outCap : ℕ)
    (st : StateStore) (p : StatePath) :
    (statePutRoute env { s with bodyOff := some off } w outCap st p).isSome := by
  unfold statePutRoute
  dsimp only
  rw [if_neg fun hwait => absurd hbody (Int.not_le.mpr hwait.2)]
  rfl

/-- **When the body is found**: exactly when the first terminator is no LFLF with fewer than two bytes behind
it. -/
theorem bodyFound_iff (env : ServeEnv η P υ) (s : EdgeHttp1Serve η) :
    BodyFound env s ↔ ¬LateEnd s.acc := by
  constructor
  · rintro ⟨hmark, -⟩ ⟨head, rest, hends, hlate⟩
    have hsome := hmark.mpr (exists_headersEnd_iff.mp ⟨_, head, lf2, rest, hends, rfl⟩)
    rw [markBodyOff_bodyOff, hends.findBodyOff, if_pos ⟨rfl, hlate⟩] at hsome
    cases hsome
  intro hnot
  have hmark : ∀ off, (markBodyOff { s with bodyOff := none }).bodyOff = some off ↔ HeadersEnd s.acc off := by
    intro off
    rw [markBodyOff_bodyOff, findBodyOff_eq_some_iff, and_iff_left hnot]
  refine ⟨?_, fun off => (hmark off).mp, fun off early hends hbody hearly => ?_⟩
  · rw [← exists_headersEnd_iff, Option.isSome_iff_exists]
    exact exists_congr hmark
  have hfound := findBodyOff_eq_some_iff.mpr ⟨hends, hnot⟩
  obtain ⟨hfull, hwaited⟩ := waitFullBody_of_found hearly hfound hbody
  refine ⟨hfull, fun hheaders => ?_⟩
  have hready : readyRequest (markedEarly s early)
      = if (s.method = bytes "PUT" ∨ s.method = bytes "POST") ∧ s.contentLength > 0 then
          some (waitFullBody (markedEarly s early)).1
        else some (markedEarly s early) := by
    have hheaders : ¬(!(markedEarly s early).headersDone) = true := by simpa [markedEarly] using hheaders
    rw [readyRequest, if_neg hheaders, if_pos hfull]
    rfl
  by_cases hwaits : (s.method = bytes "PUT" ∨ s.method = bytes "POST") ∧ s.contentLength > 0
  · refine ⟨_, hready.trans (if_pos hwaits), fun _ _ w outCap st p => ?_⟩
    rw [hwaited hwaits.2]
    exact isSome_statePutRoute hbody w outCap st p
  · refine ⟨_, hready.trans (if_neg hwaits), fun hput hfirst w outCap st p => ?_⟩
    -- Here there is no body to wait for, so the headers end in the bytes of this feed.
    obtain rfl : early = s.acc := hfirst.resolve_left fun hpos => hwaits ⟨.inl hput, hpos⟩
    rw [markedEarly, hfound]
    exact isSome_statePutRoute hbody w outCap st p

/-- A PUT whose lines end in LF, with a body of one byte. -/
def putLines : Bytes :=
  bytes "PUT /api/v1/state/net/door HTTP/1.1\nContent-Length: 1\n\n1"

def putLinesServe : EdgeHttp1Serve Unit :=
  { putServe (bytes "/api/v1/state/net/door") with
    acc := putLines
    contentLength := 1
    bodyOff := none }

/-- The whole request is there, and the code waits for its body. -/
theorem not_bodyFound_putLines :
    HeadersEnd putLinesServe.acc 55 ∧ (putLinesServe.acc.drop 55).length = 1 ∧
      (readyRequest putLinesServe).isNone ∧
      ¬BodyFound (getEnv (bytes "/api/v1/state/net/door")) putLinesServe := by
  have hfound : strstr putLines lf2 = some (lf2 ++ bytes "1") := by decide +kernel
  obtain ⟨head, htext, hlf, hfirst⟩ := strstr_eq_some_iff.mp hfound
  have hends : EndsAt putLines head lf2 (bytes "1") := by
    refine ⟨htext, .inr rfl, .inr hlf, fun a t heq ht => ?_⟩
    rcases ht with hcr | hlf'
    · -- There is no CR in the request.
      have hmem : 13 ∈ putLines := by
        rw [htext, ← heq]
        exact List.mem_append_right a (hcr.mem List.mem_cons_self)
      exact absurd hmem (by decide +kernel)
    · exact hfirst a t heq hlf'
  have hlen : head.length + lf2.length = 55 := by
    have htotal := congrArg List.length htext
    rw [List.length_append, List.length_append] at htotal
    have hall : putLines.length = 56 := by decide +kernel
    have hone : (bytes "1").length = 1 := by decide
    omega
  refine ⟨⟨head, lf2, _, hends, hlen.symm⟩, by decide +kernel, by decide +kernel, fun hfound => ?_⟩
  have hsome := hfound.1.mpr (exists_headersEnd_iff.mp ⟨55, head, lf2, _, hends, hlen.symm⟩)
  exact absurd hsome (by decide +kernel)

end Edgehost
