import Edgehost.Common.TextSearch
import Edgehost.Core.StateRuns
import Edgehost.Host.NotifyFields

/-!
# The payloads that are taken

The text search takes more payloads than those that have the schema. What it takes is said here on the text
of a payload: three quoted names, each with a quoted text somewhere behind it, and for a put a colon
behind a fourth one, with a value that ends at its closing bracket or quote, or where the payload is cut off.

* `readsPut_iff`         — what the search finds in such a text.
* `schemaEnforced_iff`   — a payload without the schema is refused exactly when it is not of this kind, or
  the store has no room for it.
-/

namespace Edgehost

/-! ## Names and the texts behind them -/

/-- Behind the first place of a text with a quoted name stands `rest`. -/
def NameBefore (s name rest : Bytes) : Prop :=
  ∃ a, s = a ++ (quoted name ++ rest) ∧ FirstAt (fun t => quoted name <+: t) a (quoted name ++ rest)

/-- Behind a quoted name the next two quotes that no backslash hides enclose a text. Its backslashes are
dropped, and what does not fit `cap` bytes is cut off. -/
def TextBehind (s name : Bytes) (cap : ℕ) (v : Bytes) : Prop :=
  ∃ a t b r, NameBefore s name (a ++ quoteByte :: t) ∧ quoteByte ∉ a ∧ StrBody t b r ∧
    v = snprintf cap (unescape b)

theorem strstr_quoted_iff {s name p : Bytes} :
    strstr s (quoted name) = some p ↔ ∃ rest, p = quoted name ++ rest ∧ NameBefore s name rest := by
  rw [strstr_eq_some_iff]
  constructor
  · rintro ⟨a, hs, hfirst⟩
    obtain ⟨rest, rfl⟩ := hfirst.1
    exact ⟨rest, rfl, a, hs, hfirst⟩
  · rintro ⟨rest, rfl, a, hs, hfirst⟩
    exact ⟨a, hs, hfirst⟩

theorem stringAfter_eq_some_iff {p v : Bytes} {cap : ℕ} :
    stringAfter p cap = some v ↔
      ∃ a t b r, p = a ++ quoteByte :: t ∧ quoteByte ∉ a ∧ StrBody t b r ∧ v = snprintf cap (unescape b) := by
  constructor
  · intro h
    cases hq : strchr p quoteByte with
    | none =>
      rw [stringAfter, hq] at h
      cases h
    | some u =>
      obtain ⟨a, t, ha, rfl, rfl⟩ := strchr_eq_some.mp hq
      rw [stringAfter_eq ha] at h
      obtain ⟨⟨b, r⟩, hbody, rfl⟩ := Option.map_eq_some_iff.mp h
      exact ⟨a, t, b, r, rfl, ha, strBody_eq_some.mp hbody, rfl⟩
  · rintro ⟨a, t, b, r, rfl, ha, hbody, rfl⟩
    rw [stringAfter_eq ha, strBody_eq_some.mpr hbody]
    rfl

/-- **A string field is the text behind its name.** -/
theorem jsonStringField_eq_some_iff {json name v : Bytes} {cap : ℕ}
    (hsize : 0 < json.length ∧ json.length ≤ EDGE_NOTIFY_MAX_PAYLOAD)
    (hname : (quoted name).length < 80) :
    edgeNotifyJsonStringField json name cap = some v ↔ TextBehind (cstr json) name cap v := by
  have hsize' : ¬(json.length = 0 ∨ json.length > EDGE_NOTIFY_MAX_PAYLOAD) := by omega
  unfold edgeNotifyJsonStringField
  rw [if_neg hsize', snprintf_of_fits hname]
  dsimp only
  constructor
  · intro h
    cases hfind : strstr (cstr json) (quoted name) with
    | none =>
      rw [hfind] at h
      cases h
    | some p =>
      obtain ⟨rest, rfl, hbefore⟩ := strstr_quoted_iff.mp hfind
      rw [hfind] at h
      dsimp only at h
      rw [List.drop_left] at h
      obtain ⟨a, t, b, r, rfl, ha, hbody, hv⟩ := stringAfter_eq_some_iff.mp h
      exact ⟨a, t, b, r, hbefore, ha, hbody, hv⟩
  · rintro ⟨a, t, b, r, hbefore, ha, hbody, hv⟩
    rw [strstr_quoted_iff.mpr ⟨_, rfl, hbefore⟩]
    dsimp only
    rw [List.drop_left]
    exact stringAfter_eq_some_iff.mpr ⟨a, t, b, r, rfl, ha, hbody, hv⟩

/-! ## Raw values -/

/-- A text whose last byte closes the last of `depth` open brackets; brackets in strings do not count. -/
inductive Closes (o c : UInt8) : ℕ → Bytes → Prop
  | done : Closes o c 0 []
  | string {d : ℕ} {t b r : Bytes} (hbody : StrBody t b r) (h : Closes o c (d + 1) r) :
    Closes o c (d + 1) (quoteByte :: t)
  | opened {d : ℕ} {s : Bytes} (h : Closes o c (d + 2) s) : Closes o c (d + 1) (o :: s)
  | closed {d : ℕ} {s : Bytes} (h : Closes o c d s) : Closes o c (d + 1) (c :: s)
  | byte {d : ℕ} {b : UInt8} {s : Bytes} (hq : b ≠ quoteByte) (ho : b ≠ o) (hc : b ≠ c)
    (h : Closes o c (d + 1) s) : Closes o c (d + 1) (b :: s)

/-- A value at the front of a text: an object or an array up to its last bracket, a string up to its quote,
or anything else up to a comma, a brace or a blank; what does not end is taken to the end of the text. -/
inductive RawValue : Bytes → Bytes → Prop
  | nested {o c : UInt8} {b t : Bytes} (hpair : IsBrackets o c) (h : Closes o c 1 b) :
    RawValue (o :: (b ++ t)) (o :: b)
  | nestedCut {o c : UInt8} {s : Bytes} (hpair : IsBrackets o c)
    (hcut : ∀ b t, s = b ++ t → ¬Closes o c 1 b) : RawValue (o :: s) (o :: s)
  | string {t b r : Bytes} (h : StrBody t b r) : RawValue (quoteByte :: t) (quoted b)
  | stringCut {s : Bytes} (hcut : ∀ b r, ¬StrBody s b r) : RawValue (quoteByte :: s) (quoteByte :: s)
  | scalar {c : UInt8} {s : Bytes} (hne : c ≠ lbrace ∧ c ≠ lbracket ∧ c ≠ quoteByte) :
    RawValue (c :: s) ((c :: s).takeWhile fun c => !endsScalar c)

theorem IsBrackets.ne {o c : UInt8} (h : IsBrackets o c) : o ≠ quoteByte ∧ c ≠ quoteByte ∧ c ≠ o := by
  rcases h with ⟨rfl, rfl⟩ | ⟨rfl, rfl⟩ <;> decide

/-- The loop stops behind the bracket that closes the value. -/
theorem skipNested_of_closes {o c : UInt8} (hpair : IsBrackets o c) {d : ℕ} {b : Bytes}
    (h : Closes o c d b) (t : Bytes) : skipNested o c d false (b ++ t) = t := by
  obtain ⟨ho, hc, hco⟩ := hpair.ne
  induction h with
  | done => cases t <;> rfl
  | string hbody h ih =>
    have hbody' := strBody_append (strBody_eq_some.mpr hbody) t
    rw [List.cons_append, skipNested_quote, skipNested_string _ hbody', ih]
  | opened h ih => rw [List.cons_append, skipNested_open _ _ ho, ih]
  | closed h ih => rw [List.cons_append, skipNested_close _ _ hc hco, ih]
  | byte hq ho' hc' h ih => rw [List.cons_append, skipNested_pass _ _ hq ho' hc', ih]

/-- A string that does not end is passed over to the end of the text. -/
theorem skipNested_string_cut {o c : UInt8} {s : Bytes} (d : ℕ) (h : strBody s = none) :
    skipNested o c d true s = [] := by
  induction s using strBody.induct with
  | case1 => cases d <;> rfl
  | case2 s =>
    rw [strBody_quote] at h
    cases h
  | case3 hq => cases d <;> rfl
  | case4 e s hq ih =>
    rw [strBody_escape, Option.map_eq_none_iff] at h
    rw [skipNested_in_escape, ih h]
  | case5 b s hq hb ih =>
    rw [strBody_cons hq hb, Option.map_eq_none_iff] at h
    rw [skipNested_in_pass _ _ hq hb, ih h]

/-- Where no bracket closes the value, the loop stops at the end of the text. -/
theorem skipNested_cut {o c : UInt8} (hpair : IsBrackets o c) (s : Bytes) :
    ∀ d, (∀ b t, s = b ++ t → ¬Closes o c d b) → skipNested o c d false s = [] := by
  obtain ⟨ho, hc, hco⟩ := hpair.ne
  obtain ⟨n, hn⟩ : ∃ n, s.length ≤ n := ⟨_, le_rfl⟩
  induction n generalizing s with
  | zero =>
    intro d _
    rw [List.eq_nil_of_length_eq_zero (Nat.le_zero.mp hn)]
    cases d <;> rfl
  | succ n ih =>
    intro d hcut
    rcases d with _ | d
    · exact absurd .done (hcut [] s rfl)
    rcases s with _ | ⟨x, s⟩
    · rfl
    have hlen : s.length ≤ n := Nat.le_of_succ_le_succ hn
    -- A string hides brackets up to its quote; the walk goes on behind it.
    by_cases hq : x = quoteByte
    · subst hq
      rw [skipNested_quote]
      cases hbody : strBody s with
      | none => exact skipNested_string_cut _ hbody
      | some y =>
        obtain ⟨b, r⟩ := y
        have hsplit := strBody_eq hbody
        rw [skipNested_string _ hbody]
        refine ih r ?_ (d + 1) fun b' t hr hclose => ?_
        · rw [hsplit, List.length_append, List.length_cons] at hlen
          omega
        · have hstr : StrBody (b ++ quoteByte :: b') b b' :=
            strBody_eq_some.mp (strBody_closed hbody b')
          refine hcut (quoteByte :: (b ++ quoteByte :: b')) t ?_ (.string hstr hclose)
          rw [hsplit, hr]
          simp
    by_cases hxo : x = o
    · subst hxo
      rw [skipNested_open _ _ ho]
      exact ih s hlen (d + 2) fun b t hs hclose => hcut (x :: b) t (by rw [hs]; rfl) (.opened hclose)
    by_cases hxc : x = c
    · subst hxc
      rw [skipNested_close _ _ hc hco]
      exact ih s hlen d fun b t hs hclose => hcut (x :: b) t (by rw [hs]; rfl) (.closed hclose)
    · rw [skipNested_pass _ _ hq hxo hxc]
      exact ih s hlen (d + 1) fun b t hs hclose =>
        hcut (x :: b) t (by rw [hs]; rfl) (.byte hq hxo hxc hclose)

/-- The raw value that the extraction takes from the front of a text. -/
def rawPrefix (s : Bytes) : Bytes := s.take (s.length - (skipRaw s).length)

/-- The part of a text in front of a suffix. -/
theorem rawPrefix_of_skip {a t : Bytes} (h : skipRaw (a ++ t) = t) : rawPrefix (a ++ t) = a := by
  rw [rawPrefix, h, List.length_append, Nat.add_sub_cancel, List.take_left]

theorem rawPrefix_of_cut {s : Bytes} (h : skipRaw s = []) : rawPrefix s = s := by
  rw [rawPrefix, h, List.length_nil, Nat.sub_zero, List.take_length]

theorem skipRaw_nested {o c : UInt8} (hpair : IsBrackets o c) (s : Bytes) :
    skipRaw (o :: s) = skipNested o c 1 false s := by
  rcases hpair with ⟨rfl, rfl⟩ | ⟨rfl, rfl⟩
  · rw [skipRaw, if_neg (by decide), if_pos rfl]
  · rw [skipRaw, if_pos rfl]

theorem skipRaw_string (s : Bytes) : skipRaw (quoteByte :: s) = (skipString s).drop 1 := by
  rw [skipRaw, if_neg (by decide), if_neg (by decide), if_pos rfl]

theorem skipRaw_unquoted {c : UInt8} (hne : c ≠ lbrace ∧ c ≠ lbracket ∧ c ≠ quoteByte) (s : Bytes) :
    skipRaw (c :: s) = (c :: s).dropWhile fun c => !endsScalar c := by
  rw [skipRaw, if_neg hne.1, if_neg hne.2.1, if_neg hne.2.2]

/-- What the extraction takes is the value at the front. -/
theorem RawValue.eq_rawPrefix {s v : Bytes} (h : RawValue s v) : v = rawPrefix s := by
  cases h with
  | @nested o c b t hpair h =>
    refine (rawPrefix_of_skip (a := o :: b) ?_).symm
    rw [List.cons_append, skipRaw_nested hpair, skipNested_of_closes hpair h]
  | @nestedCut o c s hpair hcut =>
    exact (rawPrefix_of_cut ((skipRaw_nested hpair s).trans (skipNested_cut hpair s 1 hcut))).symm
  | @string t b r h =>
    have hbody := strBody_eq_some.mpr h
    have hsplit : quoteByte :: t = quoted b ++ r := by rw [quoted_append, strBody_eq hbody]
    rw [hsplit]
    refine (rawPrefix_of_skip ?_).symm
    rw [← hsplit, skipRaw_string, skipString_of_strBody hbody]
    rfl
  | @stringCut s hcut =>
    have hbody : strBody s = none := by
      by_contra hsome
      obtain ⟨⟨b, r⟩, hbody⟩ := Option.ne_none_iff_exists'.mp hsome
      exact hcut b r (strBody_eq_some.mp hbody)
    refine (rawPrefix_of_cut ?_).symm
    rw [skipRaw_string, skipString_of_strBody_none hbody]
    rfl
  | @scalar c s hne =>
    have hsplit := List.takeWhile_append_dropWhile (p := fun c => !endsScalar c) (l := c :: s)
    have hskip := skipRaw_unquoted hne s
    generalize (c :: s).takeWhile (fun c => !endsScalar c) = v at hsplit ⊢
    rw [← hskip] at hsplit
    rw [← hsplit]
    refine (rawPrefix_of_skip ?_).symm
    rw [hsplit]

theorem exists_rawValue (c : UInt8) (s : Bytes) : ∃ v, RawValue (c :: s) v := by
  have hnested : ∀ o c, IsBrackets o c → ∃ v, RawValue (o :: s) v := by
    intro o c hpair
    by_cases hclose : ∃ b t, s = b ++ t ∧ Closes o c 1 b
    · obtain ⟨b, t, rfl, h⟩ := hclose
      exact ⟨_, .nested hpair h⟩
    · exact ⟨_, .nestedCut hpair fun b t hs h => hclose ⟨b, t, hs, h⟩⟩
  by_cases hbrace : c = lbrace
  · exact hbrace ▸ hnested lbrace rbrace (.inr ⟨rfl, rfl⟩)
  by_cases hbracket : c = lbracket
  · exact hbracket ▸ hnested lbracket rbracket (.inl ⟨rfl, rfl⟩)
  by_cases hquote : c = quoteByte
  · subst hquote
    by_cases hbody : ∃ b r, StrBody s b r
    · obtain ⟨b, r, h⟩ := hbody
      exact ⟨_, .string h⟩
    · exact ⟨_, .stringCut fun b r h => hbody ⟨b, r, h⟩⟩
  · exact ⟨_, .scalar ⟨hbrace, hbracket, hquote⟩⟩

/-- **Every text has one value at its front**: what the extraction takes. -/
theorem rawValue_iff {c : UInt8} {s v : Bytes} : RawValue (c :: s) v ↔ v = rawPrefix (c :: s) := by
  refine ⟨RawValue.eq_rawPrefix, ?_⟩
  rintro rfl
  obtain ⟨v, h⟩ := exists_rawValue c s
  exact h.eq_rawPrefix ▸ h

/-- Behind the name `value` and a colon stands a value that is not `null`. -/
def ValueBehind (s v : Bytes) : Prop :=
  ∃ a b c r, NameBefore s (bytes "value") (a ++ colon :: (b ++ c :: r)) ∧ colon ∉ a ∧
    (∀ x ∈ b, isspace x) ∧ ¬isspace c ∧ ¬bytes "null" <+: c :: r ∧ RawValue (c :: r) v

/-- What the colon leaves of the text behind a name. -/
theorem dropWhile_isspace_eq_cons {s r : Bytes} {c : UInt8} :
    s.dropWhile isspace = c :: r ↔ ∃ b, s = b ++ c :: r ∧ (∀ x ∈ b, isspace x) ∧ ¬isspace c := by
  constructor
  · intro h
    refine ⟨s.takeWhile isspace, ?_, fun x hx => List.mem_takeWhile_imp hx, ?_⟩
    · rw [← h, List.takeWhile_append_dropWhile]
    · have hne : s.dropWhile isspace ≠ [] := by rw [h]; exact List.cons_ne_nil _ _
      have hhead := List.head_dropWhile_not isspace hne
      simp only [h, List.head_cons] at hhead
      simp [hhead]
  · rintro ⟨b, rfl, hb, hc⟩
    rw [List.dropWhile_append_of_pos hb, List.dropWhile_cons_of_neg hc]

section Extraction

variable {json : Bytes} {outSz : ℕ}

/-- What the extraction finds, it finds behind the name and a colon. -/
theorem exists_name_of_extractRawValue {v : Bytes} (h : extractRawValue json outSz = some v) :
    ∃ a b c r, NameBefore (cstr json) (bytes "value") (a ++ colon :: (b ++ c :: r)) ∧ colon ∉ a ∧
      (∀ x ∈ b, isspace x) ∧ ¬isspace c := by
  obtain ⟨-, h⟩ := Option.ite_none_left_eq_some.mp h
  cases hfind : strstr (cstr json) (quoted (bytes "value")) with
  | none =>
    rw [hfind] at h
    cases h
  | some p =>
    obtain ⟨rest, rfl, hbefore⟩ := strstr_quoted_iff.mp hfind
    rw [hfind] at h
    dsimp only at h
    rw [strchr_append (by decide)] at h
    cases hcolon : strchr rest colon with
    | none =>
      rw [hcolon] at h
      cases h
    | some q =>
      obtain ⟨a, u, ha, rfl, rfl⟩ := strchr_eq_some.mp hcolon
      rw [hcolon] at h
      obtain ⟨hne, -⟩ := Option.ite_none_left_eq_some.mp h
      obtain ⟨c, r, hstart⟩ := List.exists_cons_of_ne_nil hne
      obtain ⟨b, hu, hb, hc⟩ := dropWhile_isspace_eq_cons.mp hstart
      obtain rfl : u = b ++ c :: r := hu
      exact ⟨a, b, c, r, hbefore, ha, hb, hc⟩

variable {a b r : Bytes} {c : UInt8}

/-- What the extraction takes there. -/
theorem extractRawValue_of_name (hsize : json.length ≤ EDGE_NOTIFY_MAX_PAYLOAD)
    (hbefore : NameBefore (cstr json) (bytes "value") (a ++ colon :: (b ++ c :: r))) (ha : colon ∉ a)
    (hb : ∀ x ∈ b, isspace x) (hc : ¬isspace c) :
    extractRawValue json (EDGE_STATE_VALUE_MAX + 1)
      = some (if bytes "null" <+: c :: r then bytes "null" else rawPrefix (c :: r)) := by
  have hstart := dropWhile_isspace_eq_cons.mpr ⟨b, (Eq.refl (b ++ c :: r)), hb, hc⟩
  have hroom : ¬(c :: r).length - (skipRaw (c :: r)).length + 1 > EDGE_STATE_VALUE_MAX + 1 := by
    obtain ⟨front, hs, -⟩ := hbefore
    have hcstr : (cstr json).length ≤ json.length := (List.takeWhile_prefix _).length_le
    have hmax : EDGE_NOTIFY_MAX_PAYLOAD ≤ EDGE_STATE_VALUE_MAX := by decide
    rw [hs] at hcstr
    simp only [List.length_append, List.length_cons] at hcstr ⊢
    omega
  unfold extractRawValue
  rw [if_neg (Nat.not_lt.mpr hsize), strstr_quoted_iff.mpr ⟨_, rfl, hbefore⟩]
  dsimp only
  rw [strchr_append (by decide), strchr_append ha, strchr_cons_self]
  dsimp only
  rw [List.drop_succ_cons, List.drop_zero, hstart, if_neg (List.cons_ne_nil c r)]
  by_cases hnull : bytes "null" <+: c :: r
  · rw [if_pos hnull, if_pos (List.isPrefixOf_iff_prefix.mpr hnull), if_neg (by decide)]
  · rw [if_neg hnull, if_neg (List.isPrefixOf_iff_prefix.not.mpr hnull), if_neg hroom]
    rfl

/-- **The extraction takes the value behind the name.** -/
theorem extractRawValue_iff {v : Bytes} (hsize : json.length ≤ EDGE_NOTIFY_MAX_PAYLOAD) :
    extractRawValue json (EDGE_STATE_VALUE_MAX + 1) = some v ∧ v ≠ bytes "null"
      ↔ ValueBehind (cstr json) v := by
  constructor
  · rintro ⟨h, hnull⟩
    obtain ⟨a, b, c, r, hbefore, ha, hb, hc⟩ := exists_name_of_extractRawValue h
    rw [extractRawValue_of_name hsize hbefore ha hb hc] at h
    obtain rfl := Option.some.inj h
    have hpre : ¬bytes "null" <+: c :: r := fun hpre => hnull (if_pos hpre)
    rw [if_neg hpre]
    exact ⟨a, b, c, r, hbefore, ha, hb, hc, hpre, rawValue_iff.mpr rfl⟩
  · rintro ⟨a, b, c, r, hbefore, ha, hb, hc, hpre, hraw⟩
    obtain rfl := hraw.eq_rawPrefix
    rw [extractRawValue_of_name hsize hbefore ha hb hc, if_neg hpre]
    refine ⟨rfl, fun hnull => hpre ?_⟩
    rw [← hnull]
    exact List.take_prefix _ _

end Extraction

/-! ## What is taken -/

/-- The three quoted names, each with a quoted text behind it, and a valid key. -/
structure LooseFields (json ns key op : Bytes) : Prop where
  size : 0 < json.length ∧ json.length ≤ EDGE_NOTIFY_MAX_PAYLOAD
  json_ok : edgeStateJsonOk json
  ns_text : TextBehind (cstr json) (bytes "ns") 64 ns
  key_text : TextBehind (cstr json) (bytes "key") EDGE_STATE_KEY_MAX key
  op_text : TextBehind (cstr json) (bytes "op") 16 op
  key_valid : edgeStateKeyValid key

/-- A put, with a value behind its name. -/
structure LoosePut (json ns key value : Bytes) : Prop where
  fields : LooseFields json ns key (bytes "put")
  value_text : ValueBehind (cstr json) value

theorem readsFields_iff {json ns key op : Bytes} :
    ReadsFields json ns key op ↔ LooseFields json ns key op := by
  constructor
  · rintro ⟨hsize, hjson, hns, hkey, hop, hvalid⟩
    exact ⟨hsize, hjson, (jsonStringField_eq_some_iff hsize (by decide)).mp hns,
      (jsonStringField_eq_some_iff hsize (by decide)).mp hkey,
      (jsonStringField_eq_some_iff hsize (by decide)).mp hop, hvalid⟩
  · rintro ⟨hsize, hjson, hns, hkey, hop, hvalid⟩
    exact ⟨hsize, hjson, (jsonStringField_eq_some_iff hsize (by decide)).mpr hns,
      (jsonStringField_eq_some_iff hsize (by decide)).mpr hkey,
      (jsonStringField_eq_some_iff hsize (by decide)).mpr hop, hvalid⟩

/-- **The search finds a put exactly in these texts.** -/
theorem readsPut_iff {json ns key value : Bytes} :
    ReadsPut json ns key value ↔ LoosePut json ns key value := by
  constructor
  · rintro ⟨hfields, hvalue, hnull⟩
    exact ⟨readsFields_iff.mp hfields, (extractRawValue_iff hfields.size.2).mp ⟨hvalue, hnull⟩⟩
  · rintro ⟨hfields, hvalue⟩
    obtain ⟨hvalue, hnull⟩ := (extractRawValue_iff hfields.size.2).mpr hvalue
    exact ⟨readsFields_iff.mpr hfields, hvalue, hnull⟩

/-- A store takes a value under a key: the namespace is registered and enabled, the value begins like JSON
and is within the limit, and there is room for the key. -/
def Room (st : StateStore) (ns key value : Bytes) : Prop :=
  ∃ b, st.toMap.lookup ns = some b ∧ b.enabled ∧ edgeStateJsonOk value ∧ value.length ≤ st.maxValue ∧
    (b.entries.lookup key = none → b.entries.keys.card ≠ st.maxKeys)

/-- The namespace is registered and enabled. -/
def Enabled (st : StateStore) (ns : Bytes) : Prop := ∃ b, st.toMap.lookup ns = some b ∧ b.enabled

theorem edgeStatePut_ok_iff {st : StateStore} (hwf : st.WF) {ns key value : Bytes}
    (hkey : edgeStateKeyValid key) :
    (edgeStatePut st ns key value).2 = .ok ↔ Room st ns key value := by
  rw [(edgeStatePut_refines hwf ns key value).ret]
  unfold StateMap.put Room
  cases hb : st.toMap.lookup ns with
  | none => simp
  | some b =>
    have hlimits : st.limits.maxValue = st.maxValue ∧ st.limits.maxKeys = st.maxKeys := ⟨rfl, rfl⟩
    dsimp only
    rw [hkey, hlimits.1, hlimits.2]
    split_ifs <;> simp_all

theorem edgeStateDelete_taken_iff {st : StateStore} (hwf : st.WF) {ns key : Bytes} :
    (edgeStateDelete st ns key).2 = .ok ∨ (edgeStateDelete st ns key).2 = .notFound ↔ Enabled st ns := by
  rw [(edgeStateDelete_refines hwf ns key).ret]
  unfold StateMap.delete Enabled
  cases hb : st.toMap.lookup ns with
  | none => simp
  | some b =>
    dsimp only
    split_ifs <;> simp_all

theorem edgeStateDelete_ok_iff {st : StateStore} (hwf : st.WF) {ns key : Bytes} :
    (edgeStateDelete st ns key).2 = .ok ↔ Enabled st ns ∧ st.toMap.entry ns key ≠ none := by
  rw [(edgeStateDelete_refines hwf ns key).ret]
  unfold StateMap.delete Enabled
  cases hb : st.toMap.lookup ns with
  | none => simp
  | some b =>
    rw [StateMap.entry_of_lookup hb]
    dsimp only
    split_ifs <;> simp_all

/-- The payload is a put that the store has room for, or a delete in an enabled namespace, in a text that
need not be JSON. -/
def LooselyTaken (st : StateStore) (json : Bytes) : Prop :=
  (∃ ns key value, LoosePut json ns key value ∧ Room st ns key value) ∨
    ∃ ns key, LooseFields json ns key (bytes "delete") ∧ Enabled st ns

theorem notifyTakes_iff {st : StateStore} (hwf : st.WF) (json : Bytes) :
    NotifyTakes st json ↔ LooselyTaken st json := by
  unfold NotifyTakes LooselyTaken
  refine or_congr (exists_congr fun ns => exists_congr fun key => exists_congr fun value => ?_)
    (exists_congr fun ns => exists_congr fun key => ?_)
  · rw [readsPut_iff]
    exact and_congr_right fun h => edgeStatePut_ok_iff hwf h.fields.key_valid
  · rw [readsFields_iff, edgeStateDelete_taken_iff hwf]

/-- **When the schema is enforced**: for a payload that has it, and for one whose text holds no put and no
delete that the store takes. -/
theorem schemaEnforced_iff {st : StateStore} (hwf : st.WF) (hub : Option EdgeWsHub) (alloc : ℕ → Bool)
    (json : Bytes) : SchemaEnforced st hub alloc json ↔ NotifySchema json ∨ ¬LooselyTaken st json := by
  rw [← notifyTakes_iff hwf, ← edgeNotifyApply_ok_iff st hub alloc json]
  constructor
  · rintro ⟨hok, -⟩
    by_cases hr : (edgeNotifyApply st hub alloc json).2.2 = .ok
    · exact .inl (hok hr)
    · exact .inr hr
  · rintro (hschema | hr)
    · exact ⟨fun _ => hschema, fun h => absurd hschema h⟩
    · exact ⟨fun hok => absurd hok hr, fun _ => ⟨hr, edgeNotifyApply_refused st hub alloc json hr⟩⟩

/-! ## Payloads with the schema -/

/-- A payload of plain texts and a value is read as its members. -/
theorem jsonParse_notifyPayload {ns key op text rid : Bytes} {v : Json} (hns : ns.all isPlain)
    (hkey : key.all isPlain) (hop : op.all isPlain) (hv : jsonParse text = some v) (hrid : rid.all isPlain) :
    jsonParse (notifyPayload ns key op text rid) = some (.obj [(bytes "ns", .str ns),
      (bytes "key", .str key), (bytes "op", .str op), (bytes "value", v),
      (bytes "request_id", .str rid)]) := by
  obtain ⟨m, hm⟩ : ∃ m, (notifyPayload ns key op text rid).length = m := ⟨_, rfl⟩
  have hlen : (notifyPayload ns key op text rid).length < m + 5 + 1 := by omega
  have htail : (text ++ comma :: fromRequestId rid).length < m + 5 := by
    simp only [notifyPayload, fromNs, fromNsText, fromKey, fromKeyText, fromOp, fromOpText, fromValue,
      List.length_cons, List.length_append] at hm ⊢
    omega
  have hlast := readMember_quoted (show (bytes "request_id").all isPlain by decide) (m + 4) rid [rbrace]
  rw [readString_plain hrid] at hlast
  have hsep : readSep (readMember (readValue (m + 5))) rbrace (m + 1) (fromRequestId rid)
      = some ([(bytes "request_id", .str rid)], []) :=
    readSep_last hlast (skipWs_of_not_ws (by decide) []) (by decide)
  rw [jsonParse_eq_some_of_fuel hlen]
  refine ⟨[], ?_, rfl⟩
  unfold notifyPayload fromNs fromNsText fromKey fromKeyText fromOp fromOpText fromValue
  rw [skipWs_of_not_ws (by decide), readValue_obj, readItems_quoted, readSep_str (by decide) hns,
    skipWs_quoted, readSep_str (by decide) hkey, skipWs_quoted, readSep_str (by decide) hop, skipWs_quoted,
    readSep_text (by decide) hv _ htail, fromRequestId, skipWs_quoted, ← fromRequestId, hsep]
  rfl

theorem schemaEnforced_put : SchemaEnforced smallStore none (fun _ => true)
    (notifyPayload (bytes "net.core") (bytes "k") (bytes "put") (bytes "1") (bytes "r1")) := by
  refine (schemaEnforced_iff (edgeStateCreateWithConfig_fresh _).1 none (fun _ => true) _).mpr
    (.inl ⟨_, jsonParse_notifyPayload (by decide) (by decide) (by decide) (jsonParse_decimalInt 1)
      (by decide), ?_⟩)
  exact ⟨⟨bytes "net.core", by simp⟩, ⟨bytes "k", by simp⟩, .inl ⟨by simp, .num (decimalInt 1), by simp⟩⟩

/-- A payload whose value is cut off behind its opening brace is accepted. -/
theorem not_schemaEnforced_cut : ¬SchemaEnforced smallStore none (fun _ => true)
    (bytes "\x7b\"ns\":\"net.core\",\"key\":\"k\",\"op\":\"put\",\"value\":\x7b") := by
  rintro ⟨hok, -⟩
  have htaken : (edgeNotifyApply smallStore none (fun _ => true)
      (bytes "\x7b\"ns\":\"net.core\",\"key\":\"k\",\"op\":\"put\",\"value\":\x7b")).2.2 = .ok := by
    decide +kernel
  obtain ⟨ms, hms, -⟩ := hok htaken
  have hnone : (jsonParse
      (bytes "\x7b\"ns\":\"net.core\",\"key\":\"k\",\"op\":\"put\",\"value\":\x7b")).isNone := by
    decide +kernel
  rw [hms] at hnone
  cases hnone

end Edgehost
