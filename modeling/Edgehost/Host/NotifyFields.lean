import Edgehost.Host.NotifyApply

/-!
# Payloads that are read as they are written

A payload names the namespace first, then the key, the operation, the value and the request id. The text
search finds a member at the first occurrence of its quoted name, which may be a text that stands before
the member.

* `skipRaw_value`: the end of a JSON value is found, however it nests.
* `notifyWorks_iff`: the payloads that do what they say.
-/

namespace Edgehost

/-! ## The end of a string -/

/-- The closing quote is where a JSON string ends. -/
theorem skipString_of_strBody {s b r : Bytes} (h : strBody s = some (b, r)) :
    skipString s = quoteByte :: r := by
  rw [strBody_eq_some] at h
  induction h with
  | quote s =>
    rw [skipString.eq_def]
    exact if_pos rfl
  | escape e _ ih =>
    rw [skipString.eq_def]
    exact (if_neg (by decide)).trans ((if_pos rfl).trans ih)
  | cons hq hb _ ih =>
    rw [skipString.eq_def]
    exact (if_neg hq).trans ((if_neg hb).trans ih)

/-- A string that does not end is skipped to the end of the text. -/
theorem skipString_of_strBody_none {s : Bytes} (h : strBody s = none) : skipString s = [] := by
  induction s using strBody.induct with
  | case1 => rfl
  | case2 s =>
    rw [strBody_quote] at h
    cases h
  | case3 hq =>
    rw [skipString.eq_def]
    exact (if_neg hq).trans (if_pos rfl)
  | case4 e s hq ih =>
    rw [strBody_escape, Option.map_eq_none_iff] at h
    rw [skipString.eq_def]
    exact (if_neg hq).trans ((if_pos rfl).trans (ih h))
  | case5 c s hq hb ih =>
    rw [strBody_cons hq hb, Option.map_eq_none_iff] at h
    rw [skipString.eq_def]
    exact (if_neg hq).trans ((if_neg hb).trans (ih h))

/-- **The string field behind an opening quote.** -/
theorem stringAfter_eq {a : Bytes} (ha : quoteByte ∉ a) (s : Bytes) (outSz : ℕ) :
    stringAfter (a ++ quoteByte :: s) outSz
      = (strBody s).map fun x => snprintf outSz (unescape x.1) := by
  rw [stringAfter, strchr_append ha, strchr_cons_self]
  dsimp only
  rcases hs : strBody s with _ | ⟨b, r⟩
  · rw [skipString_of_strBody_none hs, if_pos rfl]
    rfl
  · rw [skipString_of_strBody hs, if_neg (List.cons_ne_nil _ _), strBody_eq hs]
    simp

/-- A text without quotes and backslashes. -/
def Clean (x : Bytes) : Prop := quoteByte ∉ x ∧ backslash ∉ x

instance (x : Bytes) : Decidable (Clean x) := inferInstanceAs (Decidable (_ ∧ _))

/-- A plain text is clean. -/
theorem clean_of_plain {x : Bytes} (h : x.all isPlain) : Clean x := by
  constructor <;> intro hmem
  · exact absurd (List.all_eq_true.mp h _ hmem) (by decide)
  · exact absurd (List.all_eq_true.mp h _ hmem) (by decide)

/-- A clean text does not end a string. -/
theorem strBody_append_clean {x : Bytes} (h : Clean x) (s : Bytes) :
    strBody (x ++ s) = (strBody s).map fun y => (x ++ y.1, y.2) := by
  induction x with
  | nil => simp
  | cons c x ih =>
    obtain ⟨hq, hb⟩ := h
    rw [List.mem_cons, not_or] at hq hb
    rw [List.cons_append, strBody_cons (Ne.symm hq.1) (Ne.symm hb.1), ih ⟨hq.2, hb.2⟩,
      Option.map_map]
    rfl

/-- So a quoted one is the whole body. -/
theorem strBody_clean {x : Bytes} (h : Clean x) (s : Bytes) :
    strBody (x ++ quoteByte :: s) = some (x, s) := by
  rw [strBody_append_clean h, strBody_quote, Option.map_some, List.append_nil]

theorem unescape_cons {c : UInt8} (h : c ≠ backslash) (s : Bytes) :
    unescape (c :: s) = c :: unescape s := by
  rw [unescape.eq_def]
  exact if_neg h

theorem unescape_escape (e : UInt8) (s : Bytes) :
    unescape (backslash :: e :: s) = e :: unescape s := by
  rw [unescape.eq_def]
  exact if_pos rfl

/-- And nothing of it is dropped. -/
theorem unescape_clean {x : Bytes} (h : Clean x) : unescape x = x := by
  induction x with
  | nil => rfl
  | cons c x ih =>
    obtain ⟨hq, hb⟩ := h
    rw [List.mem_cons, not_or] at hq hb
    rw [unescape_cons (Ne.symm hb.1), ih ⟨hq.2, hb.2⟩]

/-- A clean text between quotes is the string that is read there. -/
theorem stringAfter_quoted {a x : Bytes} (ha : quoteByte ∉ a) (hx : Clean x) {outSz : ℕ}
    (hlen : x.length < outSz) (s : Bytes) : stringAfter (a ++ (quoted x ++ s)) outSz = some x := by
  rw [quoted_append, stringAfter_eq ha, strBody_clean hx, Option.map_some, unescape_clean hx,
    snprintf_of_fits hlen]

/-- Dropping backslashes makes a text no longer. -/
theorem length_unescape_le (b : Bytes) : (unescape b).length ≤ b.length := by
  induction b using unescape.induct with
  | case1 => exact le_rfl
  | case2 => exact le_rfl
  | case3 e s ih =>
    rw [unescape_escape, List.length_cons, List.length_cons, List.length_cons]
    omega
  | case4 c s hc ih =>
    rw [unescape_cons hc, List.length_cons, List.length_cons]
    omega

/-- Text behind a clean one. -/
theorem unescape_append {x : Bytes} (h : Clean x) (s : Bytes) :
    unescape (x ++ s) = x ++ unescape s := by
  induction x with
  | nil => rfl
  | cons c x ih =>
    obtain ⟨hq, hb⟩ := h
    rw [List.mem_cons, not_or] at hq hb
    rw [List.cons_append, unescape_cons (Ne.symm hb.1), ih ⟨hq.2, hb.2⟩]
    rfl

/-- Unescaping falls behind and never catches up: what comes out is no run of backslashes with the whole
text after it. -/
private theorem not_backslashes_unescape {w t s : Bytes} (hw : w ≠ []) (hbs : ∀ c ∈ w, c = backslash) :
    ¬w ++ t <+: unescape (t ++ quoteByte :: s) := by
  intro h
  obtain ⟨c, w, rfl⟩ := List.exists_cons_of_ne_nil hw
  rw [List.forall_mem_cons] at hbs
  obtain ⟨rfl, hbs⟩ := hbs
  induction t using unescape.induct generalizing w with
  | case1 =>
    rw [List.nil_append, unescape_cons (by decide)] at h
    exact absurd (List.cons_prefix_cons.mp h).1 (by decide)
  | case2 =>
    simp only [List.cons_append, List.nil_append, unescape_escape] at h
    exact absurd (List.cons_prefix_cons.mp h).1 (by decide)
  | case3 e t ih =>
    simp only [List.cons_append, unescape_escape] at h
    obtain ⟨rfl, h⟩ := List.cons_prefix_cons.mp h
    have hshift : w ++ backslash :: backslash :: t = (w ++ [backslash, backslash]) ++ t := by simp
    rw [hshift] at h
    rcases hw' : w ++ [backslash, backslash] with _ | ⟨c, w'⟩
    · simp at hw'
    · have hall : ∀ b ∈ c :: w', b = backslash := by
        rw [← hw']
        intro b hb
        rcases List.mem_append.mp hb with hb | hb
        · exact hbs b hb
        · simpa using hb
      rw [List.forall_mem_cons] at hall
      obtain ⟨rfl, hall⟩ := hall
      rw [hw'] at h
      exact ih w' hall (List.cons_ne_nil _ _) h
  | case4 c t hc ih =>
    simp only [List.cons_append] at h
    rw [unescape_cons hc] at h
    exact hc (List.cons_prefix_cons.mp h).1.symm

/-- A text that is not clean has a first quote or backslash. -/
theorem exists_first_unclean {x : Bytes} (h : ¬Clean x) :
    ∃ a c b, Clean a ∧ (c = quoteByte ∨ c = backslash) ∧ x = a ++ c :: b := by
  induction x with
  | nil => exact absurd ⟨List.not_mem_nil, List.not_mem_nil⟩ h
  | cons d x ih =>
    by_cases hd : d = quoteByte ∨ d = backslash
    · exact ⟨[], d, x, ⟨List.not_mem_nil, List.not_mem_nil⟩, hd, rfl⟩
    · rw [not_or] at hd
      obtain ⟨a, c, b, ha, hc, rfl⟩ := ih fun hx =>
        h ⟨by simp [Ne.symm hd.1, hx.1], by simp [Ne.symm hd.2, hx.2]⟩
      exact ⟨d :: a, c, b, ⟨by simp [Ne.symm hd.1, ha.1], by simp [Ne.symm hd.2, ha.2]⟩, hc, rfl⟩

/-- **Only a clean text is read back** from between quotes. -/
theorem clean_of_read {x s : Bytes} {outSz : ℕ}
    (h : (strBody (x ++ quoteByte :: s)).map (fun y => snprintf outSz (unescape y.1)) = some x) :
    Clean x := by
  by_contra hclean
  obtain ⟨⟨b, r⟩, hb, hx⟩ := Option.map_eq_some_iff.mp h
  have hpre : x <+: unescape b := hx ▸ List.take_prefix _ _
  have hlen : x.length ≤ b.length := hpre.length_le.trans (length_unescape_le b)
  obtain ⟨a, c, y, ha, hc, rfl⟩ := exists_first_unclean hclean
  rcases hc with rfl | rfl
  · -- The string ends at the first quote.
    rw [List.append_assoc, List.cons_append, strBody_clean ha] at hb
    obtain ⟨rfl, -⟩ := Prod.mk.inj (Option.some.inj hb)
    rw [List.length_append, List.length_cons] at hlen
    omega
  · have hstep : ∀ t, a ++ backslash :: y <+: unescape (a ++ backslash :: t) →
        backslash :: y <+: unescape (backslash :: t) := fun t ht => by
      rwa [unescape_append ha, List.prefix_append_right_inj] at ht
    rcases strBody_split hb with hlt | ⟨rfl, -⟩ | ⟨-, b₁, -, rfl, -⟩
    · omega
    · have hpre := hstep y hpre
      rcases y with _ | ⟨e, y⟩
      · -- The backslash hides the closing quote, so the string is longer.
        rw [List.append_assoc, strBody_append_clean ha, Option.map_eq_some_iff] at hb
        obtain ⟨⟨b', r'⟩, hb', heq⟩ := hb
        have hb'' := (List.append_cancel_left (Prod.mk.inj heq).1 : b' = [backslash])
        obtain ⟨z, rfl, -⟩ := strBody_escape_eq_some.mp hb'
        cases hb''
      · rw [unescape_escape] at hpre
        have := (List.cons_prefix_cons.mp hpre).2.length_le
        have := length_unescape_le y
        simp only [List.length_cons] at *
        omega
    · rw [List.append_assoc, List.cons_append] at hpre
      have hpre := hstep _ hpre
      rcases y with _ | ⟨e, y⟩
      · rw [List.nil_append, unescape_escape] at hpre
        exact absurd (List.cons_prefix_cons.mp hpre).1 (by decide)
      · rw [List.cons_append, unescape_escape] at hpre
        obtain ⟨he, hpre⟩ := List.cons_prefix_cons.mp hpre
        exact not_backslashes_unescape (w := [e]) (by simp) (by simp [he]) hpre

/-! ## The end of a value -/

/-- The brackets of an object or an array. -/
def IsBrackets (o c : UInt8) : Prop := o = lbracket ∧ c = rbracket ∨ o = lbrace ∧ c = rbrace

section Nested

variable {o c : UInt8} (d : ℕ) (s : Bytes)

theorem skipNested_cons (b : UInt8) : skipNested o c (d + 1) false (b :: s) =
    if b = quoteByte then skipNested o c (d + 1) true s
    else if b = o then skipNested o c (d + 2) false s
    else if b = c then skipNested o c d false s
    else skipNested o c (d + 1) false s := by
  rw [skipNested.eq_def]

/-- A quote opens a string. -/
theorem skipNested_quote : skipNested o c (d + 1) false (quoteByte :: s)
    = skipNested o c (d + 1) true s := by
  rw [skipNested_cons]
  exact if_pos rfl

/-- Any other byte outside a string is passed over. -/
theorem skipNested_pass {b : UInt8} (hq : b ≠ quoteByte) (ho : b ≠ o) (hc : b ≠ c) :
    skipNested o c (d + 1) false (b :: s) = skipNested o c (d + 1) false s := by
  rw [skipNested_cons, if_neg hq, if_neg ho, if_neg hc]

/-- A bracket of this kind opens a level. -/
theorem skipNested_open (hq : o ≠ quoteByte) : skipNested o c (d + 1) false (o :: s)
    = skipNested o c (d + 2) false s := by
  rw [skipNested_cons, if_neg hq, if_pos rfl]

/-- Its counterpart closes one. -/
theorem skipNested_close (hq : c ≠ quoteByte) (ho : c ≠ o) : skipNested o c (d + 1) false (c :: s)
    = skipNested o c d false s := by
  rw [skipNested_cons, if_neg hq, if_neg ho, if_pos rfl]

/-- An escape inside a string drops the byte behind it, if there is one. -/
theorem skipNested_in_cons (b : UInt8) : skipNested o c d true (b :: s) =
    if b = quoteByte then skipNested o c d false s
    else if b = backslash then skipNested o c d true (s.drop 1)
    else skipNested o c d true s := by
  rw [skipNested.eq_def]
  cases d <;> cases s <;> rfl

/-- In a string the next quote ends it. -/
theorem skipNested_in_quote : skipNested o c d true (quoteByte :: s) = skipNested o c d false s := by
  rw [skipNested_in_cons]
  exact if_pos rfl

/-- A backslash hides the byte behind it. -/
theorem skipNested_in_escape (e : UInt8) : skipNested o c d true (backslash :: e :: s)
    = skipNested o c d true s := by
  rw [skipNested_in_cons, if_neg (by decide), if_pos rfl, List.drop_one, List.tail_cons]

/-- Everything else is passed over. -/
theorem skipNested_in_pass {b : UInt8} (hq : b ≠ quoteByte) (hb : b ≠ backslash) :
    skipNested o c d true (b :: s) = skipNested o c d true s := by
  rw [skipNested_in_cons, if_neg hq, if_neg hb]

end Nested

/-- Inside a string the loop goes on to the closing quote. -/
theorem skipNested_string {o c : UInt8} {s b r : Bytes} (d : ℕ) (h : strBody s = some (b, r)) :
    skipNested o c d true s = skipNested o c d false r := by
  rw [strBody_eq_some] at h
  induction h with
  | quote s => exact skipNested_in_quote d s
  | escape e _ ih => rw [skipNested_in_escape, ih]
  | cons hq hb _ ih => rw [skipNested_in_pass d _ hq hb, ih]

/-- A byte of a numeral or a name is none of the bytes that the search looks for. -/
theorem isLeafByte_ne {b x : UInt8} (h : isLeafByte b) (hx : isLeafByte x = false) : b ≠ x := by
  rintro rfl
  rw [h] at hx
  cases hx

/-- **The bracket loop passes over every value**, at any depth. -/
theorem readRel_skipNested {o c : UInt8} (h : IsBrackets o c) :
    ReadRel fun s r => ∀ d, skipNested o c (d + 1) false s = skipNested o c (d + 1) false r where
  refl _ _ := rfl
  trans hst htr d := (hst d).trans (htr d)
  sep b s hb d := by
    have hne : b ≠ quoteByte ∧ b ≠ o ∧ b ≠ c := by
      rcases h with ⟨rfl, rfl⟩ | ⟨rfl, rfl⟩ <;> rcases hb with hb | rfl | rfl
      all_goals first
        | decide
        | refine ⟨?_, ?_, ?_⟩ <;> rintro rfl <;> exact absurd hb (by decide)
    exact skipNested_pass d s hne.1 hne.2.1 hne.2.2
  leaf b s hb d := by
    have hne : b ≠ quoteByte ∧ b ≠ o ∧ b ≠ c := by
      rcases h with ⟨rfl, rfl⟩ | ⟨rfl, rfl⟩
      all_goals exact ⟨isLeafByte_ne hb (by decide), isLeafByte_ne hb (by decide),
        isLeafByte_ne hb (by decide)⟩
    exact skipNested_pass d s hne.1 hne.2.1 hne.2.2
  string s x r hs d := by
    obtain ⟨y, hy, hs⟩ := Option.bind_eq_some_iff.mp hs
    obtain ⟨z, -, heq⟩ := Option.map_eq_some_iff.mp hs
    obtain ⟨-, rfl⟩ := Prod.mk.inj heq
    rw [skipNested_quote, skipNested_string _ hy]
  nest o' c' s r h' hs d := by
    -- Brackets of the searched kind are counted, those of the other kind are passed over.
    by_cases hsame : o' = o
    · subst hsame
      have hc : c' = c := by
        rcases h with ⟨rfl, rfl⟩ | ⟨rfl, rfl⟩ <;> rcases h' with ⟨h, rfl⟩ | ⟨h, rfl⟩
        all_goals first | rfl | exact absurd h (by decide)
      subst hc
      have hq : o' ≠ quoteByte ∧ c' ≠ quoteByte ∧ c' ≠ o' := by
        rcases h with ⟨rfl, rfl⟩ | ⟨rfl, rfl⟩ <;> decide
      rw [skipNested_open d s hq.1, hs (d + 1), skipNested_close (d + 1) r hq.2.1 hq.2.2]
    · have hne : (o' ≠ quoteByte ∧ o' ≠ o ∧ o' ≠ c) ∧ c' ≠ quoteByte ∧ c' ≠ o ∧ c' ≠ c := by
        rcases h with ⟨rfl, rfl⟩ | ⟨rfl, rfl⟩ <;> rcases h' with ⟨rfl, rfl⟩ | ⟨rfl, rfl⟩
        all_goals first | decide | exact absurd rfl hsame
      rw [skipNested_pass d s hne.1.1 hne.1.2.1 hne.1.2.2, hs d,
        skipNested_pass d r hne.2.1 hne.2.2.1 hne.2.2.2]

theorem not_endsScalar_of_leaf {b : UInt8} (h : isLeafByte b) : (!endsScalar b) = true :=
  forall_byte (P := fun b => isLeafByte b → (!endsScalar b) = true) (by decide +kernel) b h

/-- The loop over a number or a name stops behind it. -/
private theorem skipRaw_scalar {c : UInt8} {t : Bytes} (h : ∀ b ∈ c :: t, isLeafByte b) (s : Bytes) :
    skipRaw (c :: (t ++ comma :: s)) = comma :: s := by
  have hc : isLeafByte c := h c List.mem_cons_self
  rw [skipRaw, if_neg (isLeafByte_ne hc (by decide)), if_neg (isLeafByte_ne hc (by decide)),
    if_neg (isLeafByte_ne hc (by decide)), ← List.cons_append,
    List.dropWhile_append_of_pos fun b hb => not_endsScalar_of_leaf (h b hb),
    List.dropWhile_cons_of_neg (by decide)]

/-- A value that is a number or a name is all of its bytes. -/
private theorem leaf_of_readName {name text : Bytes} {v w : Json} (hname : ∀ b ∈ name, isLeafByte b)
    (h : readName name w text = some (v, [])) : ∀ b ∈ text, isLeafByte b := by
  obtain ⟨r, rfl, heq⟩ := readName_eq_some.mp h
  obtain rfl := (Prod.mk.inj heq).2
  simpa using hname

/-- **The search finds the end of a JSON value.** -/
theorem skipRaw_value {n : ℕ} {text : Bytes} {v : Json} (h : readValue n text = some (v, []))
    (s : Bytes) : skipRaw (text ++ comma :: s) = comma :: s := by
  match n, text with
  | 0, _ | _ + 1, [] => cases h
  | n + 1, c :: t =>
    rw [readValue] at h
    rw [List.cons_append]
    split_ifs at h with hq ha ho hn ht hf
    · obtain ⟨⟨x, r⟩, hx, heq⟩ := Option.map_eq_some_iff.mp h
      obtain rfl := (Prod.mk.inj heq).2
      obtain ⟨y, hy, hx⟩ := Option.bind_eq_some_iff.mp hx
      obtain ⟨z, -, heq⟩ := Option.map_eq_some_iff.mp hx
      obtain ⟨-, hy2⟩ := Prod.mk.inj heq
      obtain ⟨b, r⟩ := y
      obtain rfl : r = [] := hy2
      rw [hq, skipRaw, if_neg (by decide), if_neg (by decide), if_pos rfl,
        skipString_of_strBody (strBody_append hy (comma :: s))]
      rfl
    · obtain ⟨⟨x, r⟩, hx, heq⟩ := Option.map_eq_some_iff.mp h
      obtain rfl := (Prod.mk.inj heq).2
      have hread := (lawful_readItems (lawful_readValue n) n).append (by decide : isNumByte comma = false)
        hx s
      have hR := readRel_skipNested (o := lbracket) (c := rbracket) (.inl ⟨rfl, rfl⟩)
      rw [ha, skipRaw, if_neg (by decide), if_pos rfl, (hR.value n).items hR n hread 0,
        skipNested_close 0 _ (by decide) (by decide)]
      rfl
    · obtain ⟨⟨x, r⟩, hx, heq⟩ := Option.map_eq_some_iff.mp h
      obtain rfl := (Prod.mk.inj heq).2
      have hread := (lawful_readItems (lawful_readMember (lawful_readValue n)) n).append
        (by decide : isNumByte comma = false) hx s
      have hR := readRel_skipNested (o := lbrace) (c := rbrace) (.inr ⟨rfl, rfl⟩)
      rw [ho, skipRaw, if_pos rfl, ((hR.value n).member hR).items hR n hread 0,
        skipNested_close 0 _ (by decide) (by decide)]
      rfl
    · exact skipRaw_scalar (leaf_of_readName (by decide +kernel) h) s
    · exact skipRaw_scalar (leaf_of_readName (by decide +kernel) h) s
    · exact skipRaw_scalar (leaf_of_readName (by decide +kernel) h) s
    · obtain ⟨-, heq⟩ := Option.ite_none_right_eq_some.mp h
      have hrest := (Prod.mk.inj (Option.some.inj heq)).2
      refine skipRaw_scalar (fun b hb => ?_) s
      rw [← List.takeWhile_append_dropWhile (p := isNumByte) (l := c :: t), hrest,
        List.append_nil] at hb
      rw [isLeafByte, List.mem_takeWhile_imp hb, Bool.true_or]

/-! ## The bytes of a value -/

/-- The body of a JSON string holds no NUL. -/
theorem zero_not_mem_of_decodeBody {b d : Bytes} (h : decodeBody b = some d) : 0 ∉ b := by
  replace h := decodes_of_decodeBody h
  induction h with
  | nil => exact List.not_mem_nil
  | @unicode h₁ h₂ h₃ h₄ n hhex b d _ ih =>
    have hne : (0 : UInt8) ∉ [h₁, h₂, h₃, h₄] := fun h0 => absurd (hhex 0 h0) (by decide)
    have hback : (0 : UInt8) ≠ backslash := by decide
    have hu : (0 : UInt8) ≠ charByte 'u' := by decide
    simp only [List.mem_cons, List.not_mem_nil, or_false, not_or] at hne ⊢
    exact ⟨hback, hu, hne.1, hne.2.1, hne.2.2.1, hne.2.2.2, ih⟩
  | short hx _ ih =>
    rw [List.mem_cons, not_or, List.mem_cons, not_or]
    refine ⟨by decide, ?_, ih⟩
    rintro rfl
    cases hx
  | plain hc _ ih =>
    rw [List.mem_cons, not_or]
    refine ⟨?_, ih⟩
    rintro rfl
    exact absurd hc (by decide)

/-- Reading passes over no NUL. -/
theorem readRel_no_nul : ReadRel fun s r => (0 : UInt8) ∉ r → (0 : UInt8) ∉ s where
  refl _ h := h
  trans hst htr h := hst (htr h)
  sep c s hc h := by
    rw [List.mem_cons, not_or]
    refine ⟨?_, h⟩
    rintro rfl
    rcases hc with hc | hc | hc <;> exact absurd hc (by decide)
  leaf c s hc h := by
    rw [List.mem_cons, not_or]
    exact ⟨(isLeafByte_ne hc (by decide)).symm, h⟩
  string s x r hs h := by
    obtain ⟨b, hb, hd⟩ := readString_eq_some.mp hs
    have hq : (0 : UInt8) ≠ quoteByte := by decide
    rw [strBody_eq hb]
    simp [hq, h, zero_not_mem_of_decodeBody hd]
  nest o c s r hoc hs h := by
    rw [List.mem_cons, not_or]
    rcases hoc with ⟨rfl, rfl⟩ | ⟨rfl, rfl⟩ <;> exact ⟨by decide, hs (by simp [h]; decide)⟩

/-- A text that is a JSON value holds no NUL. -/
theorem zero_not_mem_of_value {n : ℕ} {text : Bytes} {v : Json}
    (h : readValue n text = some (v, [])) : (0 : UInt8) ∉ text :=
  readRel_no_nul.value n _ _ _ h List.not_mem_nil

/-- The first byte of a value that is not null. -/
theorem head_of_value {n : ℕ} {text : Bytes} {v : Json} (h : readValue n text = some (v, []))
    (hv : v ≠ .null) : ∃ c t, text = c :: t ∧ isspace c = false ∧ c ≠ charByte 'n' := by
  match n, text with
  | 0, _ | _ + 1, [] => cases h
  | n + 1, c :: t =>
    refine ⟨c, t, rfl, ?_⟩
    have hleaf : isLeafByte c → isspace c = false := fun hc =>
      forall_byte (P := fun b => isLeafByte b → isspace b = false) (by decide +kernel) c hc
    rw [readValue] at h
    split_ifs at h with hq ha ho hn ht hf
    · rw [hq]; decide
    · rw [ha]; decide
    · rw [ho]; decide
    · obtain ⟨r, -, heq⟩ := readName_eq_some.mp h
      exact absurd (Prod.mk.inj heq).1 hv
    · rw [ht]; decide
    · rw [hf]; decide
    · refine ⟨hleaf ?_, hn⟩
      obtain ⟨hnum, -⟩ := Option.ite_none_right_eq_some.mp h
      by_contra hc
      have hc' : ¬isNumByte c := fun h => hc (by rw [isLeafByte, h, Bool.true_or])
      rw [List.takeWhile_cons_of_neg hc'] at hnum
      cases hnum

/-! ## A payload and its suffixes -/

section Payload

variable (ns key op text rid : Bytes)

/-- The payload from the request id on, from the value on, and so on to the front. -/
def fromRequestId : Bytes := quoted (bytes "request_id") ++ colon :: (quoted rid ++ [rbrace])
def fromValue : Bytes := quoted (bytes "value") ++ colon :: (text ++ comma :: fromRequestId rid)
def fromOpText : Bytes := quoted op ++ comma :: fromValue text rid
def fromOp : Bytes := quoted (bytes "op") ++ colon :: fromOpText op text rid
def fromKeyText : Bytes := quoted key ++ comma :: fromOp op text rid
def fromKey : Bytes := quoted (bytes "key") ++ colon :: fromKeyText key op text rid
def fromNsText : Bytes := quoted ns ++ comma :: fromKey key op text rid
def fromNs : Bytes := quoted (bytes "ns") ++ colon :: fromNsText ns key op text rid

/-- The payload with these members in the documented order. -/
def notifyPayload : Bytes := lbrace :: fromNs ns key op text rid

end Payload

/-- A name that is searched for: no quote, no comma and no colon is in it. -/
def SearchName (x : Bytes) : Prop := quoteByte ∉ x ∧ comma ∉ x ∧ colon ∉ x

instance (x : Bytes) : Decidable (SearchName x) := inferInstanceAs (Decidable (_ ∧ _ ∧ _))

/-- A quoted text in front of a separator is found by its own name, and passed over otherwise. -/
theorem strstr_quoted_sep {x y : Bytes} (hx : SearchName x) (hy : quoteByte ∉ y) {c : UInt8}
    (hc : c = comma ∨ c = colon) (s : Bytes) :
    strstr (quoted y ++ c :: s) (quoted x)
      = if x = y then some (quoted y ++ c :: s) else strstr s (quoted x) := by
  have hsep : c ∉ quoted x := by
    rw [mem_quoted, not_or]
    rcases hc with rfl | rfl
    · exact ⟨by decide, hx.2.1⟩
    · exact ⟨by decide, hx.2.2⟩
  rw [strstr_sep (quoted_ne_nil x) hsep, strstr_quoted hx.1 hy]
  by_cases hxy : x = y
  · rw [if_pos hxy, if_pos hxy]
    rfl
  · rw [if_neg hxy, if_neg hxy]
    rfl

/-- The search does not stop at the opening brace. -/
theorem strstr_lbrace (s x : Bytes) : strstr (lbrace :: s) (quoted x) = strstr s (quoted x) :=
  strstr_skip fun h => absurd (List.cons_prefix_cons.mp h).1 (by decide)

section Search

variable {ns key op text rid : Bytes}

/-- Where the search for the namespace ends: at its member, whatever the payload holds. -/
theorem strstr_ns : strstr (notifyPayload ns key op text rid) (quoted (bytes "ns"))
    = some (fromNs ns key op text rid) := by
  rw [notifyPayload, strstr_lbrace, fromNs, strstr_quoted_sep (by decide) (by decide) (.inr rfl),
    if_pos rfl]

/-- Where the search for another name ends, when the namespace and the key are clean. -/
theorem strstr_notifyPayload {x : Bytes} (hx : SearchName x) (hns : quoteByte ∉ ns)
    (hkey : quoteByte ∉ key) (hop : quoteByte ∉ op) (hne : x ≠ bytes "ns") :
    strstr (notifyPayload ns key op text rid) (quoted x)
      = if x = ns then some (fromNsText ns key op text rid)
        else if x = bytes "key" then some (fromKey key op text rid)
        else if x = key then some (fromKeyText key op text rid)
        else if x = bytes "op" then some (fromOp op text rid)
        else if x = op then some (fromOpText op text rid)
        else if x = bytes "value" then some (fromValue text rid)
        else strstr (text ++ comma :: fromRequestId rid) (quoted x) := by
  rw [notifyPayload, strstr_lbrace, fromNs, strstr_quoted_sep hx (by decide) (.inr rfl), if_neg hne,
    fromNsText, strstr_quoted_sep hx hns (.inl rfl), fromKey,
    strstr_quoted_sep hx (by decide) (.inr rfl), fromKeyText, strstr_quoted_sep hx hkey (.inl rfl),
    fromOp, strstr_quoted_sep hx (by decide) (.inr rfl), fromOpText,
    strstr_quoted_sep hx hop (.inl rfl), fromValue, strstr_quoted_sep hx (by decide) (.inr rfl)]

/-- The search for the request id looks into the value before it comes to the member. -/
theorem strstr_requestId : strstr (text ++ comma :: fromRequestId rid) (quoted (bytes "request_id"))
    = some (((strstr text (quoted (bytes "request_id"))).map
        (· ++ comma :: fromRequestId rid)).getD (fromRequestId rid)) := by
  have hsep : comma ∉ quoted (bytes "request_id") := by decide
  have hself : strstr (fromRequestId rid) (quoted (bytes "request_id"))
      = some (fromRequestId rid) := by
    rw [fromRequestId, strstr_quoted_sep (by decide) (by decide) (.inr rfl), if_pos rfl]
  rw [strstr_sep (quoted_ne_nil _) hsep, hself]
  rcases strstr text (quoted (bytes "request_id")) with _ | t <;> rfl

/-- A payload has a NUL only where one of its texts has. -/
theorem mem_notifyPayload_zero (hns : (0 : UInt8) ∉ ns) (hkey : (0 : UInt8) ∉ key)
    (hop : (0 : UInt8) ∉ op) (htext : (0 : UInt8) ∉ text) (hrid : (0 : UInt8) ∉ rid) :
    (0 : UInt8) ∉ notifyPayload ns key op text rid := by
  have hb : ∀ c ∈ [quoteByte, comma, colon, lbrace, rbrace], (0 : UInt8) ≠ c := by decide +kernel
  have hname : ∀ x ∈ [bytes "ns", bytes "key", bytes "op", bytes "value", bytes "request_id"],
      (0 : UInt8) ∉ x := by decide +kernel
  simp only [List.forall_mem_cons] at hb hname
  simp [notifyPayload, fromNs, fromNsText, fromKey, fromKeyText, fromOp, fromOpText, fromValue,
    fromRequestId, mem_quoted, hb, hname, hns, hkey, hop, htext, hrid]

end Search

/-! ## What the search reads -/

/-- A field whose name is found is the string behind it. -/
theorem field_of_found {json x s : Bytes} {outSz : ℕ}
    (hsize : 0 < json.length ∧ json.length ≤ EDGE_NOTIFY_MAX_PAYLOAD) (hnul : (0 : UInt8) ∉ json)
    (hx : x.length < 78) (hfound : strstr json (quoted x) = some (quoted x ++ s)) :
    edgeNotifyJsonStringField json x outSz = stringAfter s outSz := by
  have hsize : ¬(json.length = 0 ∨ json.length > EDGE_NOTIFY_MAX_PAYLOAD) := by omega
  have hkey : snprintf 80 (quoted x) = quoted x :=
    snprintf_of_fits (by rw [length_quoted]; omega)
  simp only [edgeNotifyJsonStringField, if_neg hsize, hkey, cstr_of_not_mem hnul, hfound,
    List.drop_left]

/-- A value whose name is found and whose end the loops find is read as it stands. -/
theorem rawValue_of_found {json a w s p : Bytes} (hsize : json.length ≤ EDGE_NOTIFY_MAX_PAYLOAD)
    (hnul : (0 : UInt8) ∉ json)
    (hfound : strstr json (quoted (bytes "value")) = some p) (hp : p = a ++ colon :: (w ++ s))
    (ha : colon ∉ a)
    (hw : ∃ c t, w = c :: t ∧ isspace c = false ∧ c ≠ charByte 'n')
    (hskip : skipRaw (w ++ s) = s) (hlen : w.length < EDGE_STATE_VALUE_MAX + 1) :
    extractRawValue json (EDGE_STATE_VALUE_MAX + 1) = some w := by
  obtain ⟨c, t, rfl, hspace, hn⟩ := hw
  have hstart : ((colon :: (c :: t ++ s)).drop 1).dropWhile isspace = c :: t ++ s :=
    List.dropWhile_cons_of_neg (by simp [hspace])
  have hnull : (bytes "null").isPrefixOf (c :: t ++ s) = false := by
    rw [Bool.eq_false_iff]
    intro h
    exact hn (List.cons_prefix_cons.mp (List.isPrefixOf_iff_prefix.mp h)).1.symm
  rw [extractRawValue, if_neg (Nat.not_lt.mpr hsize), cstr_of_not_mem hnul, hfound]
  dsimp only
  rw [hp, strchr_append ha, strchr_cons_self]
  dsimp only
  have hne : c :: t ++ s ≠ [] := List.cons_ne_nil _ _
  rw [hstart, if_neg hne, hnull, if_neg (by decide), hskip, List.length_append,
    Nat.add_sub_cancel, if_neg (by omega), List.take_left]

/-- The request id that the search finds: the text behind an earlier occurrence of the name, or the
member. -/
def requestIdFound (ns key text rid : Bytes) : Option Bytes :=
  if ns = bytes "request_id" then some (bytes "key")
  else if key = bytes "request_id" then some (bytes "op")
  else
    match strstr text (quoted (bytes "request_id")) with
    | none => some rid
    | some t => stringAfter (t.drop 12 ++ comma :: fromRequestId rid) EDGE_WS_REQUEST_ID

section Reads

variable {ns key op text rid : Bytes} {n : ℕ} {v : Json}

/-- What is asked of the members. -/
structure PayloadParts (ns key op text rid : Bytes) : Prop where
  ns_short : ns.length < 64
  ns_nul : (0 : UInt8) ∉ ns
  key_valid : edgeStateKeyValid key
  op_known : op = bytes "put" ∨ op = bytes "delete"
  value : ∃ n v, readValue n text = some (v, []) ∧ v ≠ .null
  rid_plain : rid.all isPlain
  rid_short : rid.length < EDGE_WS_REQUEST_ID
  size : (notifyPayload ns key op text rid).length ≤ EDGE_NOTIFY_MAX_PAYLOAD

namespace PayloadParts

variable (h : PayloadParts ns key op text rid)
include h

/-- The payload is searched to its end. -/
theorem nul : (0 : UInt8) ∉ notifyPayload ns key op text rid := by
  have hplain : ∀ {x : Bytes}, x.all isPlain → (0 : UInt8) ∉ x := fun hx hmem =>
    absurd (List.all_eq_true.mp hx _ hmem) (by decide)
  obtain ⟨n, v, hv, -⟩ := h.value
  refine mem_notifyPayload_zero h.ns_nul (hplain (isPlain_of_keyValid h.key_valid)) ?_
    (zero_not_mem_of_value hv) (hplain h.rid_plain)
  rcases h.op_known with rfl | rfl <;> decide

/-- It is not empty and not too long. -/
theorem size' : 0 < (notifyPayload ns key op text rid).length ∧
    (notifyPayload ns key op text rid).length ≤ EDGE_NOTIFY_MAX_PAYLOAD :=
  ⟨Nat.succ_pos _, h.size⟩

/-- A valid key is clean. -/
theorem key_clean : Clean key := clean_of_plain (isPlain_of_keyValid h.key_valid)

/-- So are the two operations. -/
theorem op_clean : Clean op := by
  rcases h.op_known with rfl | rfl <;> decide

theorem key_short : key.length < EDGE_STATE_KEY_MAX := edgeStateKeyValid_length h.key_valid

/-- The namespace field: the text up to the first quote that ends it. -/
theorem ns_field : edgeNotifyJsonStringField (notifyPayload ns key op text rid) (bytes "ns") 64
    = (strBody (ns ++ quoteByte :: (comma :: fromKey key op text rid))).map
        fun x => snprintf 64 (unescape x.1) := by
  rw [field_of_found h.size' h.nul (by decide) strstr_ns, fromNsText, quoted_append]
  exact stringAfter_eq (a := [colon]) (by decide) _ 64

/-- **The namespace** is found where it is written: nothing stands in front of it. -/
theorem ns_field_eq (hns : Clean ns) :
    edgeNotifyJsonStringField (notifyPayload ns key op text rid) (bytes "ns") 64 = some ns := by
  rw [h.ns_field, strBody_clean hns, Option.map_some, unescape_clean hns, snprintf_of_fits h.ns_short]

/-- **The key** is found unless the namespace is called `key`. -/
theorem key_field (hns : Clean ns) :
    edgeNotifyJsonStringField (notifyPayload ns key op text rid) (bytes "key") EDGE_STATE_KEY_MAX
      = some (if ns = bytes "key" then bytes "key" else key) := by
  have hfind := @strstr_notifyPayload ns key op text rid (bytes "key") (by decide) hns.1
    h.key_clean.1 h.op_clean.1 (by decide)
  by_cases hk : ns = bytes "key"
  · rw [if_pos hk.symm, fromNsText, hk] at hfind
    subst hk
    rw [field_of_found h.size' h.nul (by decide) hfind, if_pos rfl, fromKey]
    exact stringAfter_quoted (a := [comma]) (by decide) (by decide) (by decide) _
  · rw [if_neg (Ne.symm hk), if_pos rfl, fromKey] at hfind
    rw [field_of_found h.size' h.nul (by decide) hfind, if_neg hk, fromKeyText]
    exact stringAfter_quoted (a := [colon]) (by decide) h.key_clean h.key_short _

/-- **The operation** is found unless the namespace or the key is called `op`. -/
theorem op_field (hns : Clean ns) :
    edgeNotifyJsonStringField (notifyPayload ns key op text rid) (bytes "op") 16
      = some (if ns = bytes "op" then bytes "key" else if key = bytes "op" then bytes "op" else op) := by
  have hfind := @strstr_notifyPayload ns key op text rid (bytes "op") (by decide) hns.1
    h.key_clean.1 h.op_clean.1 (by decide)
  have hop : op.length < 16 := by rcases h.op_known with rfl | rfl <;> decide
  rw [if_neg (by decide : bytes "op" ≠ bytes "key")] at hfind
  by_cases hn : ns = bytes "op"
  · rw [if_pos hn.symm, fromNsText] at hfind
    subst hn
    rw [field_of_found h.size' h.nul (by decide) hfind, if_pos rfl, fromKey]
    exact stringAfter_quoted (a := [comma]) (by decide) (by decide) (by decide) _
  rw [if_neg (Ne.symm hn)] at hfind
  rw [if_neg hn]
  by_cases hk : key = bytes "op"
  · rw [if_pos hk.symm, fromKeyText] at hfind
    subst hk
    rw [field_of_found h.size' h.nul (by decide) hfind, if_pos rfl, fromOp]
    exact stringAfter_quoted (a := [comma]) (by decide) (by decide) (by decide) _
  · rw [if_neg (Ne.symm hk), if_pos rfl, fromOp] at hfind
    rw [field_of_found h.size' h.nul (by decide) hfind, if_neg hk, fromOpText]
    exact stringAfter_quoted (a := [colon]) (by decide) h.op_clean hop _

theorem text_short : text.length < EDGE_STATE_VALUE_MAX := by
  refine lt_of_le_of_lt ?_ (lt_of_le_of_lt h.size (by decide))
  simp only [notifyPayload, fromNs, fromNsText, fromKey, fromKeyText, fromOp, fromOpText, fromValue,
    List.length_cons, List.length_append]
  omega

/-- **The value** is found unless the namespace or the key is called `value`. -/
theorem value_field (hns : Clean ns) :
    extractRawValue (notifyPayload ns key op text rid) (EDGE_STATE_VALUE_MAX + 1)
      = some (if ns = bytes "value" then quoted key
          else if key = bytes "value" then quoted op else text) := by
  have hfind := @strstr_notifyPayload ns key op text rid (bytes "value") (by decide) hns.1
    h.key_clean.1 h.op_clean.1 (by decide)
  have hop : bytes "value" ≠ op := by rcases h.op_known with rfl | rfl <;> decide
  rw [if_neg (by decide : bytes "value" ≠ bytes "key"),
    if_neg (by decide : bytes "value" ≠ bytes "op"), if_neg hop, if_pos rfl] at hfind
  -- A quoted text behind the colon that comes first is read as a string.
  have hquoted : ∀ {x : Bytes}, Clean x → ∀ s, skipRaw (quoted x ++ comma :: s) = comma :: s := by
    intro x hx s
    rw [quoted_append, skipRaw, if_neg (by decide), if_neg (by decide), if_pos rfl,
      skipString_of_strBody (strBody_clean hx _)]
    rfl
  have hhead : ∀ x : Bytes, ∃ c t, quoted x = c :: t ∧ isspace c = false ∧ c ≠ charByte 'n' :=
    fun x => ⟨_, _, rfl, by decide, by decide⟩
  have hsep : ∀ x y s, quoted (bytes "value") ++ comma :: (quoted x ++ colon :: (quoted y ++ s))
      = (quoted (bytes "value") ++ comma :: quoted x) ++ colon :: (quoted y ++ s) := fun x y s => by
    simp
  by_cases hn : ns = bytes "value"
  · rw [if_pos hn.symm, fromNsText, hn, fromKey, fromKeyText] at hfind
    rw [if_pos hn]
    subst hn
    have hshort := h.key_short
    exact rawValue_of_found h.size h.nul hfind (hsep _ _ _) (by decide) (hhead key)
      (hquoted h.key_clean _) (by
        rw [length_quoted]
        simp only [EDGE_STATE_KEY_MAX, EDGE_STATE_VALUE_MAX] at *
        omega)
  rw [if_neg (Ne.symm hn)] at hfind
  rw [if_neg hn]
  by_cases hk : key = bytes "value"
  · rw [if_pos hk.symm, fromKeyText, hk, fromOp, fromOpText] at hfind
    rw [if_pos hk]
    subst hk
    exact rawValue_of_found h.size h.nul hfind (hsep _ _ _) (by decide) (hhead op)
      (hquoted h.op_clean _) (by
        rcases h.op_known with rfl | rfl <;> decide)
  · rw [if_neg (Ne.symm hk), fromValue] at hfind
    rw [if_neg hk]
    obtain ⟨n, v, hv, hnull⟩ := h.value
    have hshort := h.text_short
    exact rawValue_of_found h.size h.nul hfind rfl (by decide) (head_of_value hv hnull)
      (skipRaw_value hv _) (by omega)

/-- **The request id** that is read is behind the first such name, which may stand in the value. -/
theorem requestId_field (hns : Clean ns) :
    edgeNotifyJsonStringField (notifyPayload ns key op text rid) (bytes "request_id")
        EDGE_WS_REQUEST_ID
      = requestIdFound ns key text rid := by
  have hfind := @strstr_notifyPayload ns key op text rid (bytes "request_id") (by decide) hns.1
    h.key_clean.1 h.op_clean.1 (by decide)
  have hop : bytes "request_id" ≠ op := by rcases h.op_known with rfl | rfl <;> decide
  rw [if_neg (by decide : bytes "request_id" ≠ bytes "key"),
    if_neg (by decide : bytes "request_id" ≠ bytes "op"), if_neg hop,
    if_neg (by decide : bytes "request_id" ≠ bytes "value"), strstr_requestId] at hfind
  rw [requestIdFound]
  by_cases hn : ns = bytes "request_id"
  · rw [if_pos hn.symm, fromNsText, hn, fromKey] at hfind
    rw [if_pos hn]
    subst hn
    rw [field_of_found h.size' h.nul (by decide) hfind]
    exact stringAfter_quoted (a := [comma]) (by decide) (by decide) (by decide) _
  rw [if_neg (Ne.symm hn)] at hfind
  rw [if_neg hn]
  by_cases hk : key = bytes "request_id"
  · rw [if_pos hk.symm, fromKeyText, hk, fromOp] at hfind
    rw [if_pos hk]
    subst hk
    rw [field_of_found h.size' h.nul (by decide) hfind]
    exact stringAfter_quoted (a := [comma]) (by decide) (by decide) (by decide) _
  rw [if_neg (Ne.symm hk)] at hfind
  rw [if_neg hk]
  rcases hs : strstr text (quoted (bytes "request_id")) with _ | t
  · rw [hs, Option.map_none, Option.getD_none, fromRequestId] at hfind
    rw [field_of_found h.size' h.nul (by decide) hfind]
    exact stringAfter_quoted (a := [colon]) (by decide) (clean_of_plain h.rid_plain) h.rid_short _
  · obtain ⟨t', rfl⟩ := (strstr_eq_some hs).1
    rw [hs, Option.map_some, Option.getD_some, List.append_assoc] at hfind
    rw [field_of_found h.size' h.nul (by decide) hfind]
    rfl

end PayloadParts

end Reads

end Edgehost
