import Edgehost.Common.BoundedReads
import Edgehost.Common.TextSearch
import Edgehost.Host.OutboundHttp

/-!
# Parsing what an upstream sends

`parse_status_and_body` is given the bytes that were received and their number, without a NUL behind
them. The search for the header end keeps to the number, but `strchr` and `strtol` before it do not.

* `parseStatusAndBodyIn_eq`: as long as it reads within the bytes, the function is `parseStatusAndBody`.
* `parsesInside_iff`: for which bytes it does.
-/

namespace Edgehost

/-- `parse_status_and_body` on a buffer of exactly these bytes; `none` when it reads behind them. -/
def parseStatusAndBodyIn (raw : Bytes) : Option (Option (ℤ × Bytes)) :=
  if raw.length < 12 then some none
  else if !(bytes "HTTP/1.").isPrefixOf raw then some none
  else
    match strchrIn raw 32 with
    | none => none
    | some none => some none
    | some (some p) =>
      match strtollIn (p.drop 1) with
      | none => none
      | some (st, rest) =>
        if rest = p.drop 1 ∨ st < 100 ∨ st > 599 then some none
        -- The loop looks four bytes ahead and stops before the last one.
        else some ((strstr raw crlf2).map fun end_ => (st, end_.drop 4))

/-- Within its buffer the function is the one of the model. -/
theorem parseStatusAndBodyIn_eq {raw : Bytes} {r : Option (ℤ × Bytes)}
    (h : parseStatusAndBodyIn raw = some r) : parseStatusAndBody raw = r := by
  rw [parseStatusAndBodyIn] at h
  rw [parseStatusAndBody]
  by_cases hlen : raw.length < 12
  · rw [if_pos hlen] at h ⊢
    exact Option.some.inj h
  by_cases hversion : (!(bytes "HTTP/1.").isPrefixOf raw) = true
  · rw [if_neg hlen, if_pos hversion] at h ⊢
    exact Option.some.inj h
  rw [if_neg hlen, if_neg hversion] at h ⊢
  rcases hfound : strchrIn raw 32 with _ | found
  · rw [hfound] at h
    cases h
  · rw [hfound] at h
    rw [strchr_cstr_of_strchrIn (by decide) hfound]
    rcases found with _ | p
    · exact Option.some.inj h
    · dsimp only [Option.map_some] at h ⊢
      rcases hread : strtollIn (p.drop 1) with _ | ⟨st, rest⟩
      · rw [hread] at h
        cases h
      · rw [hread] at h
        obtain ⟨b, rfl⟩ := head_of_strchrIn hfound
        have hhead : cstr (32 :: b) = 32 :: cstr b := List.takeWhile_cons_of_pos (by decide)
        have hval : strtoll b = (st, rest) := by
          rw [strtollIn] at hread
          exact Option.some.inj (Option.ite_none_left_eq_some.mp hread).2
        obtain ⟨hnum, hrest⟩ := strtoll_cstr b
        rw [hval] at hnum hrest
        rw [hhead, List.drop_one, List.tail_cons, hnum]
        rw [List.drop_one, List.tail_cons] at h
        dsimp only at h
        by_cases hbad : rest = b ∨ st < 100 ∨ st > 599
        · rw [if_pos hbad] at h
          rw [if_pos (hbad.imp_left hrest.mpr)]
          exact Option.some.inj h
        · rw [if_neg hbad] at h
          rw [if_neg fun hb => hbad (hb.imp_left hrest.mp)]
          exact Option.some.inj h

/-- The body is the part behind the first empty line. -/
def BehindEmptyLine (raw body : Bytes) : Prop :=
  ∃ head, raw = head ++ (crlf2 ++ body) ∧
    ∀ head' body', raw = head' ++ (crlf2 ++ body') → head.length ≤ head'.length

/-- The bytes are parsed without a look behind them, and the body is what stands behind the first empty
line. -/
def ParsesInside (raw : Bytes) : Prop :=
  ∃ r, parseStatusAndBodyIn raw = some r ∧ ∀ st body, r = some (st, body) → BehindEmptyLine raw body

/-- The status line ends within the bytes: a NUL stands before any blank, or behind the first blank there
is more than white space, a sign and digits. -/
def StatusEnds (raw : Bytes) : Prop :=
  ∃ a d b, raw = a ++ d :: b ∧ 32 ∉ a ∧ 0 ∉ a ∧ (d = 0 ∨ (d = 32 ∧ numeralRest b ≠ []))

/-- The search for the empty line finds the first one. -/
theorem behindEmptyLine_of_strstr {raw t : Bytes} (h : strstr raw crlf2 = some t) :
    BehindEmptyLine raw (t.drop 4) := by
  obtain ⟨head, rfl, ⟨body, rfl⟩, hfirst⟩ := strstr_eq_some_iff.mp h
  refine ⟨head, rfl, fun head' body' heq => ?_⟩
  exact hfirst head' (crlf2 ++ body') heq.symm (List.prefix_append crlf2 body')

/-- With the first blank at hand, the line ends unless what follows is a numeral up to the end. -/
theorem statusEnds_iff_of_blank {raw a b : Bytes} (hraw : raw = a ++ 32 :: b) (ha : 32 ∉ a) (h0 : 0 ∉ a) :
    StatusEnds raw ↔ numeralRest b ≠ [] := by
  have hfound : strchrIn raw 32 = strchrIn (32 :: b) 32 := by
    rw [hraw, strchrIn_append ha h0]
  constructor
  · rintro ⟨a', d', b', hraw', ha', h0', hd'⟩
    have hsame : strchrIn (32 :: b) 32 = strchrIn (d' :: b') 32 := by
      rw [← hfound, hraw', strchrIn_append ha' h0']
    rcases hd' with rfl | ⟨rfl, hrest⟩
    · cases hsame
    · obtain rfl := (List.cons.inj (Option.some.inj (Option.some.inj hsame))).2
      exact hrest
  · intro hrest
    exact ⟨a, 32, b, hraw, ha, h0, Or.inr ⟨rfl, hrest⟩⟩

/-- **For which bytes the function keeps to them.** -/
theorem parsesInside_iff (raw : Bytes) :
    ParsesInside raw ↔ raw.length < 12 ∨ ¬ bytes "HTTP/1." <+: raw ∨ StatusEnds raw := by
  by_cases hlen : raw.length < 12
  · refine iff_of_true ⟨none, if_pos hlen, fun _ _ h => by cases h⟩ (Or.inl hlen)
  by_cases hversion : bytes "HTTP/1." <+: raw
  · have hfront : ¬(!(bytes "HTTP/1.").isPrefixOf raw) = true := by
      rw [List.isPrefixOf_iff_prefix.mpr hversion]
      decide
    rw [or_iff_right hlen, or_iff_right (not_not.mpr hversion), ParsesInside, parseStatusAndBodyIn,
      if_neg hlen, if_neg hfront]
    -- The search for the blank may run past the end, stop at it, or stop at a NUL in front of it.
    rcases strchrIn_cases (c := 32) raw with ⟨hblank, hnul, hnone⟩ | ⟨a, d, b, hraw, ha, h0, hstop⟩
    · rw [hnone]
      refine iff_of_false ?_ ?_
      · rintro ⟨r, hr, -⟩
        cases hr
      · rintro ⟨a, d, b, rfl, -, -, rfl | ⟨rfl, -⟩⟩
        · exact hnul (List.mem_append_right a List.mem_cons_self)
        · exact hblank (List.mem_append_right a List.mem_cons_self)
    · rcases hstop with ⟨rfl, hfound⟩ | ⟨-, rfl, hfound⟩
      · rw [hfound, statusEnds_iff_of_blank hraw ha h0]
        dsimp only
        rw [strtollIn, List.drop_one, List.tail_cons]
        by_cases hrest : numeralRest b = []
        · rw [if_pos hrest]
          refine iff_of_false ?_ (not_not.mpr hrest)
          rintro ⟨r, hr, -⟩
          cases hr
        · refine iff_of_true ?_ hrest
          rw [if_neg hrest]
          obtain ⟨st, rest⟩ := strtoll b
          dsimp only
          by_cases hbad : rest = b ∨ st < 100 ∨ st > 599
          · rw [if_pos hbad]
            exact ⟨none, rfl, fun _ _ h => by cases h⟩
          · rw [if_neg hbad]
            refine ⟨_, rfl, fun st' body hbody => ?_⟩
            obtain ⟨t, ht, heq⟩ := Option.map_eq_some_iff.mp hbody
            rw [← (Prod.mk.inj heq).2]
            exact behindEmptyLine_of_strstr ht
      · rw [hfound]
        refine iff_of_true ⟨none, rfl, fun _ _ h => by cases h⟩ ⟨a, 0, b, hraw, ha, h0, Or.inl rfl⟩
  · have hfront : (!(bytes "HTTP/1.").isPrefixOf raw) = true := by
      have hno : (bytes "HTTP/1.").isPrefixOf raw = false := by
        rw [← Bool.not_eq_true, List.isPrefixOf_iff_prefix]
        exact hversion
      rw [hno]
      rfl
    refine iff_of_true ⟨none, ?_, fun _ _ h => by cases h⟩ (Or.inr (Or.inl hversion))
    rw [parseStatusAndBodyIn, if_neg hlen, if_pos hfront]

/-- A response that was cut off behind its status: `strtol` reads on behind the last digit. -/
theorem not_parsesInside_cutOff :
    parseStatusAndBodyIn (bytes "HTTP/1.1 200") = none ∧ ¬ ParsesInside (bytes "HTTP/1.1 200") := by
  have hread : parseStatusAndBodyIn (bytes "HTTP/1.1 200") = none := by decide +kernel
  refine ⟨hread, ?_⟩
  rintro ⟨r, hr, -⟩
  rw [hread] at hr
  cases hr

end Edgehost
