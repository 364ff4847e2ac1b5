import Edgehost.Common.TextSearch
import Edgehost.Host.PqSidecar

/-!
# Reading an exposition

`find_prom_num` looks for a metric's name at the start of a line and reads the number behind the first
blank. Comments, longer names and names within a line are passed over, but a blank in a label is taken for
the end of the labels.

* `findPromNum_promText`: the scan stops at the first line of that name with a number behind its first
  blank.
* `parseReport_iff`: when the report is that of the first line of each gauge.
-/

namespace Edgehost

/-! ## Expositions -/

/-- A byte of the name of a metric. -/
def isMetricChar (c : UInt8) : Bool :=
  islower c || (65 ≤ c && c ≤ 90) || isdigit c || c = charByte '_' || c = charByte ':'

/-- A sample: `name`, perhaps labels between braces, blanks and the digits of a value. -/
structure PromSample where
  name : Bytes
  labels : Option Bytes
  blanks : Bytes
  digits : Bytes
  name_ne : name ≠ []
  name_chars : ∀ c ∈ name, isMetricChar c = true
  labels_line : ∀ l ∈ labels, ∀ c ∈ l, c ≠ 10 ∧ c ≠ 0
  blanks_ne : blanks ≠ []
  blanks_blank : ∀ c ∈ blanks, isPromBlank c = true
  digits_ne : digits ≠ []
  digits_digit : ∀ d ∈ digits, isdigit d = true

namespace PromSample

/-- The value of a sample. -/
def value (s : PromSample) : ℕ := digitsValue s.digits

/-- The labels with their braces. -/
def labelText (s : PromSample) : Bytes :=
  match s.labels with
  | none => []
  | some l => lbrace :: (l ++ [rbrace])

/-- The text of a sample. -/
def text (s : PromSample) : Bytes := s.name ++ (s.labelText ++ (s.blanks ++ s.digits))

/-- The labels from behind the first blanks in them. -/
def behindBlank (s : PromSample) : Option Bytes :=
  s.labels.bind fun l =>
    if l.any isPromBlank then some ((l.dropWhile (!isPromBlank ·)).dropWhile isPromBlank) else none

/-- The number behind the first blank of a sample, which may stand in its labels. -/
def scanned (s : PromSample) : Option ℤ :=
  match s.behindBlank with
  | none => some (clampInt64 s.value)
  | some w => if (strtoll w).2 = w then none else some (strtoll w).1

/-- No label has a blank, and the value fits a signed integer of 64 bits. -/
def Plain (s : PromSample) : Prop := s.behindBlank = none ∧ s.value < 2 ^ 63

end PromSample

/-- A line of an exposition. -/
inductive PromLine where
  | comment (text : Bytes) (line : ∀ c ∈ text, c ≠ 10 ∧ c ≠ 0)
  | sample (s : PromSample)

/-- The text of a line. -/
def PromLine.text : PromLine → Bytes
  | comment text _ => charByte '#' :: text
  | sample s => s.text

/-- The sample on a line, if its name is this one. -/
def PromLine.named (metric : Bytes) : PromLine → Option PromSample
  | comment _ _ => none
  | sample s => if s.name = metric then some s else none

/-- The text of an exposition. -/
def promText (lines : List PromLine) : Bytes := lines.flatMap fun line => line.text ++ [10]

/-- The first sample of a metric. -/
def firstSample (lines : List PromLine) (metric : Bytes) : Option PromSample :=
  lines.findSome? (PromLine.named metric)

/-- The first number behind the first blank of a sample of a metric. -/
def firstScanned (lines : List PromLine) (metric : Bytes) : Option ℤ :=
  lines.findSome? fun line => (line.named metric).bind PromSample.scanned

/-! ## The scan -/

theorem ne_of_isMetricChar {c : UInt8} (h : isMetricChar c = true) :
    c ≠ 0 ∧ c ≠ 10 ∧ c ≠ charByte '#' ∧ c ≠ lbrace ∧ isPromBlank c = false :=
  forall_byte (P := fun c => isMetricChar c = true →
    c ≠ 0 ∧ c ≠ 10 ∧ c ≠ charByte '#' ∧ c ≠ lbrace ∧ isPromBlank c = false) (by decide +kernel) c h

section Scan

variable {metric : Bytes}

/-- Within a line nothing is found, and no occurrence goes beyond its end. -/
theorem findPromNum_within (hne : metric ≠ []) (hchars : ∀ c ∈ metric, isMetricChar c = true)
    (t rest : Bytes) {prev : UInt8} (hprev : prev ≠ 10) {skip : ℕ} (hskip : skip ≤ t.length)
    (hline : 10 ∉ t) :
    findPromNum metric (some prev) skip (t ++ 10 :: rest) = findPromNum metric (some 10) 0 rest := by
  have hnl : 10 ∉ metric := fun h => (ne_of_isMetricChar (hchars 10 h)).2.1 rfl
  induction t generalizing prev skip with
  | nil =>
    obtain rfl : skip = 0 := Nat.le_zero.mp hskip
    have hmiss : metric.isPrefixOf (10 :: rest) = false := by
      rw [← Bool.not_eq_true, List.isPrefixOf_iff_prefix]
      intro h
      obtain ⟨d, m, rfl⟩ := List.exists_cons_of_ne_nil hne
      obtain ⟨rfl, -⟩ := List.cons_prefix_cons.mp h
      exact hnl List.mem_cons_self
    rw [List.nil_append, findPromNum, hmiss]
    rfl
  | cons c t ih =>
    have hc : c ≠ 10 := fun h => hline (h ▸ List.mem_cons_self)
    have ht : 10 ∉ t := fun h => hline (List.mem_cons_of_mem c h)
    rw [List.cons_append]
    rcases skip with _ | skip
    · rw [findPromNum]
      by_cases hp : metric <+: c :: (t ++ 10 :: rest)
      · have hlen := ((prefix_append_sep_iff (s := c :: t) hnl).mp hp).length_le
        rw [List.length_cons] at hlen
        have hfound : metric.isPrefixOf (c :: (t ++ 10 :: rest)) = true :=
          List.isPrefixOf_iff_prefix.mpr hp
        rw [if_neg (by rw [hfound]; decide), if_pos (by simpa using hprev)]
        exact ih hc (by omega) ht
      · have hmiss : metric.isPrefixOf (c :: (t ++ 10 :: rest)) = false := by
          rw [← Bool.not_eq_true, List.isPrefixOf_iff_prefix]
          exact hp
        rw [if_pos (by rw [hmiss]; rfl)]
        exact ih hc (Nat.zero_le _) ht
    · rw [findPromNum]
      exact ih hc (by rw [List.length_cons] at hskip; omega) ht

/-- At the start of a line. -/
theorem findPromNum_lineStart (hne : metric ≠ []) (hchars : ∀ c ∈ metric, isMetricChar c = true)
    {c : UInt8} {t : Bytes} (rest : Bytes) (hline : 10 ∉ c :: t) {prev : Option UInt8}
    (hprev : prev = none ∨ prev = some 10) :
    findPromNum metric prev 0 (c :: t ++ 10 :: rest) =
      if metric <+: c :: t then
        match promValue ((c :: t ++ 10 :: rest).drop metric.length) with
        | some v => v
        | none => findPromNum metric (some 10) 0 rest
      else findPromNum metric (some 10) 0 rest := by
  have hnl : 10 ∉ metric := fun h => (ne_of_isMetricChar (hchars 10 h)).2.1 rfl
  have hc : c ≠ 10 := fun h => hline (h ▸ List.mem_cons_self)
  have ht : 10 ∉ t := fun h => hline (List.mem_cons_of_mem c h)
  rw [List.cons_append, findPromNum]
  by_cases hp : metric <+: c :: t
  · have hlen := hp.length_le
    rw [List.length_cons] at hlen
    have hfound : metric.isPrefixOf (c :: (t ++ 10 :: rest)) = true :=
      List.isPrefixOf_iff_prefix.mpr (hp.trans (List.prefix_append (c :: t) (10 :: rest)))
    have hhash : c ≠ charByte '#' := by
      obtain ⟨d, m, rfl⟩ := List.exists_cons_of_ne_nil hne
      obtain ⟨rfl, -⟩ := List.cons_prefix_cons.mp hp
      exact (ne_of_isMetricChar (hchars d List.mem_cons_self)).2.2.1
    have hcomment : ¬((bytes "# ").isPrefixOf (c :: (t ++ 10 :: rest)) = true ∨
        (prev = none ∧ c = charByte '#')) := by
      rw [List.isPrefixOf_iff_prefix]
      rintro (h | h)
      · exact hhash (List.cons_prefix_cons.mp h).1.symm
      · exact hhash h.2
    have hstart : ¬ (prev.any (· ≠ 10)) = true := by
      rcases hprev with rfl | rfl <;> decide
    rw [if_pos hp, if_neg (by rw [hfound]; decide), if_neg hstart, if_neg hcomment]
    rcases promValue ((c :: (t ++ 10 :: rest)).drop metric.length) with _ | v
    · exact findPromNum_within hne hchars t rest hc (by omega) ht
    · rfl
  · have hmiss : metric.isPrefixOf (c :: (t ++ 10 :: rest)) = false := by
      rw [← Bool.not_eq_true, List.isPrefixOf_iff_prefix]
      exact fun h => hp ((prefix_append_sep_iff (s := c :: t) hnl).mp h)
    rw [if_neg hp, if_pos (by rw [hmiss]; rfl)]
    exact findPromNum_within hne hchars t rest hc (Nat.zero_le _) ht

end Scan

/-! ## The number of a sample -/

/-- A byte at which the labels go on. -/
def isLabelByte (c : UInt8) : Bool := !(isPromBlank c || c = 10)

/-- The number behind the first blanks, for a text that starts with a blank or a brace. -/
theorem promValue_of_head {c : UInt8} (hc : isPromBlank c = true ∨ c = lbrace) (t : Bytes) {q : Bytes}
    (hq : ((c :: t).dropWhile isLabelByte).dropWhile isPromBlank = q) :
    promValue (c :: t) = if (strtoll q).2 = q then none else some (strtoll q).1 := by
  rw [← hq]
  exact if_pos hc

theorem isLabelByte_of_blank {c : UInt8} (h : isPromBlank c = true) : ¬ isLabelByte c = true := by
  rw [isLabelByte, h, Bool.true_or]
  decide

theorem isLabelByte_of_not_blank {c : UInt8} (hblank : ¬isPromBlank c = true) (hline : c ≠ 10) :
    isLabelByte c = true := by
  simp [isLabelByte, hblank, hline]

/-- Labels with a blank go on up to it. -/
theorem dropWhile_isLabelByte {l : Bytes} (hline : ∀ c ∈ l, c ≠ 10) (hany : l.any isPromBlank = true)
    (t : Bytes) : (l ++ t).dropWhile isLabelByte = l.dropWhile (!isPromBlank ·) ++ t := by
  induction l with
  | nil => cases hany
  | cons c l ih =>
    by_cases hblank : isPromBlank c = true
    · rw [List.cons_append, List.dropWhile_cons_of_neg (isLabelByte_of_blank hblank),
        List.dropWhile_cons_of_neg (by rw [hblank]; decide), List.cons_append]
    · have hc := isLabelByte_of_not_blank hblank (hline c List.mem_cons_self)
      rw [List.any_cons, Bool.eq_false_iff.mpr hblank, Bool.false_or] at hany
      rw [List.cons_append, List.dropWhile_cons_of_pos hc,
        List.dropWhile_cons_of_pos (by simpa using hblank)]
      exact ih (fun d hd => hline d (List.mem_cons_of_mem c hd)) hany

namespace PromSample

variable (s : PromSample)

/-- Behind the labels stand the blanks and the digits. -/
theorem dropWhile_blanks (rest : Bytes) :
    ((s.blanks ++ s.digits ++ 10 :: rest).dropWhile isLabelByte).dropWhile isPromBlank =
      s.digits ++ 10 :: rest := by
  obtain ⟨b, bs, hbs⟩ := List.exists_cons_of_ne_nil s.blanks_ne
  have hb := s.blanks_blank b (hbs ▸ List.mem_cons_self)
  have hstop : (s.blanks ++ s.digits ++ 10 :: rest).dropWhile isLabelByte =
      s.blanks ++ s.digits ++ 10 :: rest := by
    rw [hbs]
    exact List.dropWhile_cons_of_neg (isLabelByte_of_blank hb)
  obtain ⟨d, ds, hds⟩ := List.exists_cons_of_ne_nil s.digits_ne
  have hd : ¬ isPromBlank d = true := by
    have hdigit := s.digits_digit d (hds ▸ List.mem_cons_self)
    rw [(ne_of_isMetricChar (c := d) (by simp [isMetricChar, hdigit])).2.2.2.2]
    decide
  rw [hstop, List.append_assoc, List.dropWhile_append_of_pos s.blanks_blank, hds]
  exact List.dropWhile_cons_of_neg hd

theorem strtoll_value (rest : Bytes) :
    (if (strtoll (s.digits ++ 10 :: rest)).2 = s.digits ++ 10 :: rest then none
      else some (strtoll (s.digits ++ 10 :: rest)).1) = some (clampInt64 s.value) := by
  rw [(strtoll_digits s.digits_ne s.digits_digit (Or.inr ⟨10, rest, rfl, by decide⟩)).1]
  refine if_neg fun h => s.digits_ne ?_
  have hlen : (10 :: rest).length = (s.digits ++ 10 :: rest).length := congrArg List.length h
  rw [List.length_append] at hlen
  exact List.length_eq_zero_iff.mp (by omega)

/-- **The number behind a name**: what the sample alone says. -/
theorem promValue_eq (rest : Bytes) :
    promValue (s.labelText ++ (s.blanks ++ s.digits) ++ 10 :: rest) = s.scanned := by
  rcases hlabels : s.labels with _ | l
  · have hbehind : s.behindBlank = none := by rw [behindBlank, hlabels]; rfl
    obtain ⟨b, bs, hbs⟩ := List.exists_cons_of_ne_nil s.blanks_ne
    have hb := s.blanks_blank b (hbs ▸ List.mem_cons_self)
    have htext : s.labelText ++ (s.blanks ++ s.digits) ++ 10 :: rest =
        b :: (bs ++ s.digits ++ 10 :: rest) := by
      rw [labelText, hlabels, hbs]
      rfl
    have hq : ((b :: (bs ++ s.digits ++ 10 :: rest)).dropWhile isLabelByte).dropWhile isPromBlank =
        s.digits ++ 10 :: rest := by
      have hbehindBlanks := s.dropWhile_blanks rest
      rw [hbs] at hbehindBlanks
      exact hbehindBlanks
    rw [scanned, hbehind, htext, promValue_of_head (Or.inl hb) _ hq]
    exact s.strtoll_value rest
  · have htext : s.labelText ++ (s.blanks ++ s.digits) ++ 10 :: rest =
        lbrace :: (l ++ rbrace :: (s.blanks ++ s.digits ++ 10 :: rest)) := by
      rw [labelText, hlabels]
      simp
    have hbrace : isLabelByte lbrace = true := by decide
    have hclose : isLabelByte rbrace = true := by decide
    have hline : ∀ c ∈ l, c ≠ 10 := fun c hc => (s.labels_line l hlabels c hc).1
    rw [htext]
    by_cases hblank : l.any isPromBlank = true
    · -- the first blank stands in the labels, and the brace ends whatever is read there
      have hbehind : s.behindBlank =
          some ((l.dropWhile (!isPromBlank ·)).dropWhile isPromBlank) := by
        rw [behindBlank, hlabels, Option.bind_some, if_pos hblank]
      have hq : ((lbrace :: (l ++ rbrace :: (s.blanks ++ s.digits ++ 10 :: rest))).dropWhile
          isLabelByte).dropWhile isPromBlank =
          (l.dropWhile (!isPromBlank ·)).dropWhile isPromBlank ++
            rbrace :: (s.blanks ++ s.digits ++ 10 :: rest) := by
        rw [List.dropWhile_cons_of_pos hbrace, dropWhile_isLabelByte hline hblank,
          dropWhile_sep (by decide)]
      rw [scanned, hbehind, promValue_of_head (Or.inr rfl) _ hq,
        strtoll_sep (by decide) (by decide) (by decide)]
      exact if_congr (List.append_left_inj _) rfl rfl
    · have hbehind : s.behindBlank = none := by
        rw [behindBlank, hlabels, Option.bind_some, if_neg hblank]
      have hpass : ∀ c ∈ l, isLabelByte c = true := fun c hc =>
        isLabelByte_of_not_blank (fun h => hblank (List.any_eq_true.mpr ⟨c, hc, h⟩)) (hline c hc)
      have hq : ((lbrace :: (l ++ rbrace :: (s.blanks ++ s.digits ++ 10 :: rest))).dropWhile
          isLabelByte).dropWhile isPromBlank = s.digits ++ 10 :: rest := by
        rw [List.dropWhile_cons_of_pos hbrace, List.dropWhile_append_of_pos hpass,
          List.dropWhile_cons_of_pos hclose, s.dropWhile_blanks]
      rw [scanned, hbehind, promValue_of_head (Or.inr rfl) _ hq]
      exact s.strtoll_value rest

/-- Behind the name stands a blank or a brace. -/
theorem text_eq : ∃ c t, s.text = s.name ++ c :: t ∧ s.labelText ++ (s.blanks ++ s.digits) = c :: t ∧
    (isPromBlank c = true ∨ c = lbrace) := by
  rcases hlabels : s.labels with _ | l
  · obtain ⟨b, bs, hbs⟩ := List.exists_cons_of_ne_nil s.blanks_ne
    have htail : s.labelText ++ (s.blanks ++ s.digits) = b :: (bs ++ s.digits) := by
      rw [labelText, hlabels, hbs]
      rfl
    exact ⟨b, bs ++ s.digits, by rw [text, htail], htail,
      Or.inl (s.blanks_blank b (hbs ▸ List.mem_cons_self))⟩
  · have htail : s.labelText ++ (s.blanks ++ s.digits) =
        lbrace :: (l ++ [rbrace] ++ (s.blanks ++ s.digits)) := by
      rw [labelText, hlabels]
      rfl
    exact ⟨lbrace, _, by rw [text, htail], htail, Or.inr rfl⟩

end PromSample

/-! ## The lines -/

/-- A line holds no newline and no NUL. -/
theorem PromLine.text_clean (line : PromLine) : ∀ c ∈ line.text, c ≠ 10 ∧ c ≠ 0 := by
  have hblank : ∀ c : UInt8, isPromBlank c = true → c ≠ 10 ∧ c ≠ 0 :=
    forall_byte (by decide +kernel)
  have hdigit : ∀ c : UInt8, isdigit c = true → c ≠ 10 ∧ c ≠ 0 := forall_byte (by decide +kernel)
  intro c hc
  cases line with
  | comment text hline =>
    rcases List.mem_cons.mp hc with rfl | hc
    · decide
    · exact hline c hc
  | sample s =>
    rcases List.mem_append.mp hc with hc | hc
    · have hmetric := ne_of_isMetricChar (s.name_chars c hc)
      exact ⟨hmetric.2.1, hmetric.1⟩
    rcases List.mem_append.mp hc with hc | hc
    · rcases hlabels : s.labels with _ | l
      · rw [PromSample.labelText, hlabels] at hc
        exact absurd hc List.not_mem_nil
      · rw [PromSample.labelText, hlabels] at hc
        rcases List.mem_cons.mp hc with rfl | hc
        · decide
        · rcases List.mem_append.mp hc with hc | hc
          · exact s.labels_line l hlabels c hc
          · rw [List.mem_singleton.mp hc]
            decide
    rcases List.mem_append.mp hc with hc | hc
    · exact hblank c (s.blanks_blank c hc)
    · exact hdigit c (s.digits_digit c hc)

theorem cstr_promText (lines : List PromLine) : cstr (promText lines) = promText lines := by
  refine cstr_of_not_mem fun h => ?_
  obtain ⟨line, -, hmem⟩ := List.mem_flatMap.mp h
  rcases List.mem_append.mp hmem with hmem | hmem
  · exact (line.text_clean 0 hmem).2 rfl
  · exact absurd (List.mem_singleton.mp hmem) (by decide)

section Lines

variable {metric : Bytes}

/-- A comment does not start with a metric. -/
theorem not_prefix_comment (hne : metric ≠ []) (hchars : ∀ c ∈ metric, isMetricChar c = true) (text : Bytes) :
    ¬metric <+: charByte '#' :: text := by
  intro h
  obtain ⟨d, m, rfl⟩ := List.exists_cons_of_ne_nil hne
  obtain ⟨rfl, -⟩ := List.cons_prefix_cons.mp h
  exact (ne_of_isMetricChar (hchars _ List.mem_cons_self)).2.2.1 rfl

/-- **The number behind a metric** that a sample starts with: that of the sample, if the metric is its whole
name. Behind a shorter metric comes a byte that ends no name. -/
theorem promValue_behind (s : PromSample) (hp : metric <+: s.name) (rest : Bytes) :
    promValue ((s.text ++ 10 :: rest).drop metric.length) =
      ((PromLine.sample s).named metric).bind PromSample.scanned := by
  obtain ⟨c, t, htext, htail, -⟩ := s.text_eq
  obtain ⟨u, hu⟩ := hp
  rcases u with _ | ⟨d, u⟩
  · rw [List.append_nil] at hu
    have hnamed : (PromLine.sample s).named metric = some s := if_pos hu.symm
    have hvalue := s.promValue_eq rest
    rw [htail] at hvalue
    have hdrop : (s.text ++ 10 :: rest).drop metric.length = c :: t ++ 10 :: rest := by
      rw [htext, hu, List.append_assoc]
      exact List.drop_left
    rw [hdrop, hvalue, hnamed, Option.bind_some]
  · have hnamed : (PromLine.sample s).named metric = none := by
      refine if_neg fun h => ?_
      have hlen := congrArg List.length hu
      rw [h, List.length_append, List.length_cons] at hlen
      omega
    have hd : isMetricChar d = true :=
      s.name_chars d (hu ▸ List.mem_append_right metric List.mem_cons_self)
    have hdrop : (s.text ++ 10 :: rest).drop metric.length = d :: (u ++ (c :: t ++ 10 :: rest)) := by
      rw [htext, ← hu, List.append_assoc, List.append_assoc, List.drop_left]
      rfl
    have hvalue : promValue (d :: (u ++ (c :: t ++ 10 :: rest))) = none := by
      obtain ⟨-, -, -, hbrace, hblank⟩ := ne_of_isMetricChar hd
      refine if_neg ?_
      rw [hblank]
      simpa using hbrace
    rw [hdrop, hvalue, hnamed, Option.bind_none]

/-- **The scan at a line.** -/
theorem findPromNum_line (hne : metric ≠ []) (hchars : ∀ c ∈ metric, isMetricChar c = true)
    (line : PromLine) (rest : Bytes) {prev : Option UInt8} (hprev : prev = none ∨ prev = some 10) :
    findPromNum metric prev 0 (line.text ++ 10 :: rest) =
      match (line.named metric).bind PromSample.scanned with
      | some v => v
      | none => findPromNum metric (some 10) 0 rest := by
  have hclean := line.text_clean
  cases line with
  | comment text hline =>
    have hnl : 10 ∉ charByte '#' :: text := fun h => (hclean 10 h).1 rfl
    rw [PromLine.text, findPromNum_lineStart hne hchars rest hnl hprev,
      if_neg (not_prefix_comment hne hchars text)]
    rfl
  | sample s =>
    obtain ⟨c, t, htext, -, hc⟩ := s.text_eq
    have hsep : c ∉ metric := by
      intro h
      obtain ⟨-, -, -, hbrace, hblank⟩ := ne_of_isMetricChar (hchars c h)
      rcases hc with hc | hc
      · exact absurd hc (by rw [hblank]; decide)
      · exact hbrace hc
    have hnl : 10 ∉ s.text := fun h => (hclean 10 h).1 rfl
    obtain ⟨d, ds, hds⟩ : ∃ d ds, s.text = d :: ds := by
      refine List.exists_cons_of_ne_nil fun h => s.name_ne ?_
      rw [htext] at h
      exact (List.append_eq_nil_iff.mp h).1
    have hstart := findPromNum_lineStart hne hchars rest (hds ▸ hnl) hprev
    rw [← hds] at hstart
    have hpre : metric <+: s.text ↔ metric <+: s.name := by
      rw [htext]
      exact prefix_append_sep_iff hsep
    rw [PromLine.text, hstart]
    by_cases hp : metric <+: s.name
    · rw [if_pos (hpre.mpr hp), promValue_behind s hp rest]
    · have hnamed : (PromLine.sample s).named metric = none :=
        if_neg fun h : s.name = metric => hp (h ▸ List.prefix_rfl)
      rw [if_neg fun h => hp (hpre.mp h), hnamed]
      rfl

/-- **What the scan finds** in an exposition. -/
theorem findPromNum_promText (hne : metric ≠ []) (hchars : ∀ c ∈ metric, isMetricChar c = true)
    (lines : List PromLine) :
    findPromNum metric none 0 (promText lines) = (firstScanned lines metric).getD (-1) := by
  suffices hscan : ∀ prev : Option UInt8, prev = none ∨ prev = some 10 →
      findPromNum metric prev 0 (promText lines) = (firstScanned lines metric).getD (-1) from
    hscan none (Or.inl rfl)
  induction lines with
  | nil =>
    intro prev _
    rw [promText, List.flatMap_nil, findPromNum]
    rfl
  | cons line lines ih =>
    intro prev hprev
    have htext : promText (line :: lines) = line.text ++ 10 :: promText lines := by
      rw [promText, List.flatMap_cons, List.append_assoc, promText]
      rfl
    rw [htext, findPromNum_line hne hchars line _ hprev, firstScanned, List.findSome?_cons]
    rcases (line.named metric).bind PromSample.scanned with _ | v
    · exact ih (some 10) (Or.inr rfl)
    · rfl

end Lines

/-! ## The report -/

/-- The gauges of a scrape. -/
def promGauges : List Bytes :=
  [bytes "pqproxy_pool_waiters", bytes "pqproxy_live_backends", bytes "pqproxy_active_frontends"]

/-- The value of the first sample of a gauge, or 0. -/
def gaugeValue (lines : List PromLine) (metric : Bytes) : ℤ :=
  ((firstSample lines metric).map fun s => (s.value : ℤ)).getD 0

/-- What is to be reported. -/
def expectedReport (lines : List PromLine) : PromReport where
  up := promGauges.any fun metric => (firstSample lines metric).isSome
  poolBusy := gaugeValue lines (bytes "pqproxy_pool_waiters")
  liveBackends := gaugeValue lines (bytes "pqproxy_live_backends")
  activeFrontends := gaugeValue lines (bytes "pqproxy_active_frontends")

/-- An exposition that is read as it should be: it has a line; the first sample of each gauge has no blank in
its labels and a value that fits, or the number found in its place happens to be its value; and with
a gauge there, one of the numbers is not negative. -/
structure GaugesRead (lines : List PromLine) : Prop where
  lines_ne : lines ≠ []
  each : ∀ metric ∈ promGauges, ∀ s, firstSample lines metric = some s →
    s.Plain ∨ promOrZero ((firstScanned lines metric).getD (-1)) = s.value
  up : (∃ metric ∈ promGauges, (firstSample lines metric).isSome) →
    ∃ metric ∈ promGauges, ∃ v, firstScanned lines metric = some v ∧ 0 ≤ v

/-- A plain sample is read as it is. -/
theorem PromSample.Plain.scanned_eq {s : PromSample} (h : s.Plain) : s.scanned = some (s.value : ℤ) := by
  have hclamp : clampInt64 s.value = s.value := by
    have hfits := h.2
    rw [clampInt64, if_neg (by omega), if_neg (by omega)]
  rw [PromSample.scanned, h.1, hclamp]

/-- Numbers are found in samples of the metric only. -/
theorem firstScanned_of_none {lines : List PromLine} {metric : Bytes}
    (h : firstSample lines metric = none) : firstScanned lines metric = none := by
  rw [firstSample, List.findSome?_eq_none_iff] at h
  rw [firstScanned, List.findSome?_eq_none_iff]
  intro line hline
  rw [h line hline]
  rfl

theorem firstScanned_of_plain {lines : List PromLine} {metric : Bytes} {s : PromSample}
    (h : firstSample lines metric = some s) (hs : s.Plain) :
    firstScanned lines metric = some (s.value : ℤ) := by
  induction lines with
  | nil => cases h
  | cons line lines ih =>
    rw [firstSample, List.findSome?_cons] at h
    rw [firstScanned, List.findSome?_cons]
    rcases hnamed : line.named metric with _ | s'
    · rw [hnamed] at h
      exact ih h
    · rw [hnamed] at h
      obtain rfl := Option.some.inj h
      rw [Option.bind_some, hs.scanned_eq]

/-- One gauge is reported as it should be. -/
theorem gauge_iff (lines : List PromLine) (metric : Bytes) :
    promOrZero ((firstScanned lines metric).getD (-1)) = gaugeValue lines metric ↔
      ∀ s, firstSample lines metric = some s →
        s.Plain ∨ promOrZero ((firstScanned lines metric).getD (-1)) = s.value := by
  rcases hfirst : firstSample lines metric with _ | s
  · rw [firstScanned_of_none hfirst, gaugeValue, hfirst]
    refine iff_of_true (by decide) ?_
    intro s hs
    cases hs
  · have hvalue : gaugeValue lines metric = s.value := by
      rw [gaugeValue, hfirst]
      rfl
    rw [hvalue]
    constructor
    · rintro h s' hs'
      obtain rfl := Option.some.inj hs'
      exact Or.inr h
    · intro h
      rcases h s rfl with hplain | h
      · rw [firstScanned_of_plain hfirst hplain, Option.getD_some, promOrZero, if_pos (by omega)]
      · exact h

/-- The scrape is up when a number that is not negative is found. -/
theorem up_iff (lines : List PromLine) :
    ((∃ metric ∈ promGauges, (firstScanned lines metric).getD (-1) ≥ 0) ↔
        ∃ metric ∈ promGauges, (firstSample lines metric).isSome) ↔
      ((∃ metric ∈ promGauges, (firstSample lines metric).isSome) →
        ∃ metric ∈ promGauges, ∃ v, firstScanned lines metric = some v ∧ 0 ≤ v) := by
  have hfound : ∀ metric, (firstScanned lines metric).getD (-1) ≥ 0 ↔
      ∃ v, firstScanned lines metric = some v ∧ 0 ≤ v := by
    intro metric
    rcases firstScanned lines metric with _ | v
    · simp
    · simp
  simp only [hfound]
  refine ⟨Iff.mpr, fun h => ⟨?_, h⟩⟩
  rintro ⟨metric, hmem, v, hv, -⟩
  refine ⟨metric, hmem, Option.isSome_iff_ne_none.mpr fun hnone => ?_⟩
  rw [firstScanned_of_none hnone] at hv
  cases hv

theorem exists_gauge {p : Bytes → Prop} : (∃ metric ∈ promGauges, p metric) ↔
    p (bytes "pqproxy_pool_waiters") ∨ p (bytes "pqproxy_live_backends") ∨
      p (bytes "pqproxy_active_frontends") := by
  simp only [promGauges, List.mem_cons, List.not_mem_nil, or_false, exists_eq_or_imp, exists_eq_left]

theorem forall_gauge {p : Bytes → Prop} : (∀ metric ∈ promGauges, p metric) ↔
    p (bytes "pqproxy_pool_waiters") ∧ p (bytes "pqproxy_live_backends") ∧
      p (bytes "pqproxy_active_frontends") := by
  simp only [promGauges, List.forall_mem_cons, List.not_mem_nil, false_implies, implies_true, and_true]

/-- The flag of the report is the expected one. -/
theorem upFlag_iff (lines : List PromLine) {live active waiters : ℤ}
    (hwaiters : waiters = (firstScanned lines (bytes "pqproxy_pool_waiters")).getD (-1))
    (hlive : live = (firstScanned lines (bytes "pqproxy_live_backends")).getD (-1))
    (hactive : active = (firstScanned lines (bytes "pqproxy_active_frontends")).getD (-1)) :
    decide (live ≥ 0 ∨ active ≥ 0 ∨ waiters ≥ 0) =
        promGauges.any (fun metric => (firstSample lines metric).isSome) ↔
      ((∃ metric ∈ promGauges, (firstSample lines metric).isSome) →
        ∃ metric ∈ promGauges, ∃ v, firstScanned lines metric = some v ∧ 0 ≤ v) := by
  rw [← up_iff, Bool.eq_iff_iff, decide_eq_true_iff, List.any_eq_true]
  refine iff_congr ?_ Iff.rfl
  rw [exists_gauge (p := fun metric => (firstScanned lines metric).getD (-1) ≥ 0), ← hwaiters, ← hlive,
    ← hactive]
  exact or_assoc.symm.trans or_comm

theorem promGauges_chars : ∀ metric ∈ promGauges,
    metric ≠ [] ∧ ∀ c ∈ metric, isMetricChar c = true := by
  decide +kernel

/-- **When the report is right.** For every exposition the report is the value of the first sample of each
gauge, and `up` says whether there is one, exactly when the gauges are read. -/
theorem parseReport_iff (lines : List PromLine) {healthCap : ℕ} (hcap : 32 ≤ healthCap) :
    edgePqSidecarParseReport (promText lines) healthCap true = some (expectedReport lines) ↔
      GaugesRead lines := by
  by_cases hempty : lines = []
  · refine iff_of_false (fun h => ?_) fun h => h.lines_ne hempty
    have hnil : (promText []).length = 0 := rfl
    rw [hempty, edgePqSidecarParseReport, if_pos (Or.inl hnil)] at h
    cases h
  have hlen : ¬ (promText lines).length = 0 := by
    obtain ⟨line, rest, rfl⟩ := List.exists_cons_of_ne_nil hempty
    rw [promText, List.flatMap_cons, List.length_append, List.length_append, List.length_singleton]
    omega
  have hfind : ∀ metric ∈ promGauges,
      findPromNum metric none 0 (promText lines) = (firstScanned lines metric).getD (-1) :=
    fun metric hm =>
      findPromNum_promText (promGauges_chars metric hm).1 (promGauges_chars metric hm).2 lines
  have hbusy := hfind (bytes "pqproxy_pool_waiters") (by decide)
  have hlive := hfind (bytes "pqproxy_live_backends") (by decide)
  have hactive := hfind (bytes "pqproxy_active_frontends") (by decide)
  have hargs : ¬((promText lines).length = 0 ∨ healthCap < 32 ∨ (!true) = true) := by
    rintro (h | h | h)
    · exact hlen h
    · omega
    · cases h
  have hreport : edgePqSidecarParseReport (promText lines) healthCap true = some (expectedReport lines) ↔
      decide (findPromNum (bytes "pqproxy_live_backends") none 0 (promText lines) ≥ 0 ∨
          findPromNum (bytes "pqproxy_active_frontends") none 0 (promText lines) ≥ 0 ∨
          findPromNum (bytes "pqproxy_pool_waiters") none 0 (promText lines) ≥ 0) =
          promGauges.any (fun metric => (firstSample lines metric).isSome) ∧
        promOrZero (findPromNum (bytes "pqproxy_pool_waiters") none 0 (promText lines)) =
          gaugeValue lines (bytes "pqproxy_pool_waiters") ∧
        promOrZero (findPromNum (bytes "pqproxy_live_backends") none 0 (promText lines)) =
          gaugeValue lines (bytes "pqproxy_live_backends") ∧
        promOrZero (findPromNum (bytes "pqproxy_active_frontends") none 0 (promText lines)) =
          gaugeValue lines (bytes "pqproxy_active_frontends") := by
    rw [edgePqSidecarParseReport, if_neg hargs, cstr_promText, Option.some.injEq, expectedReport,
      PromReport.mk.injEq]
  rw [hreport, upFlag_iff lines hbusy hlive hactive, hbusy, hlive, hactive, gauge_iff, gauge_iff,
    gauge_iff]
  constructor
  · rintro ⟨hup, hgauges⟩
    exact ⟨hempty, forall_gauge.mpr hgauges, hup⟩
  · intro hread
    exact ⟨hread.up, forall_gauge.mp hread.each⟩

/-- Plain samples are read. -/
theorem GaugesRead.of_plain {lines : List PromLine} (hne : lines ≠ [])
    (h : ∀ metric ∈ promGauges, ∀ s, firstSample lines metric = some s → s.Plain) :
    GaugesRead lines := by
  refine ⟨hne, fun metric hm s hs => Or.inl (h metric hm s hs), ?_⟩
  rintro ⟨metric, hm, hsome⟩
  obtain ⟨s, hs⟩ := Option.isSome_iff_exists.mp hsome
  exact ⟨metric, hm, s.value, firstScanned_of_plain hs (h metric hm s hs), by omega⟩

/-- A sample of the pool, with these labels and the value 3. -/
def poolSample (labels : Option Bytes) (h : ∀ l ∈ labels, ∀ c ∈ l, c ≠ 10 ∧ c ≠ 0) : PromSample :=
  ⟨bytes "pqproxy_pool_waiters", labels, [32], bytes "3", by decide, by decide +kernel, h, by decide,
    by decide +kernel, by decide, by decide +kernel⟩

theorem parseReport_plain :
    edgePqSidecarParseReport (promText [.sample (poolSample none (by simp))]) 512 true =
      some ⟨true, 3, 0, 0⟩ := by
  refine ((parseReport_iff [.sample (poolSample none (by simp))] (show 32 ≤ 512 by decide)).mpr
    (.of_plain (List.cons_ne_nil _ _) ?_)).trans (by decide +kernel)
  intro metric _ s hs
  rw [firstSample, List.findSome?_cons] at hs
  by_cases hname : (poolSample none (by simp)).name = metric
  · rw [PromLine.named, if_pos hname] at hs
    obtain rfl := Option.some.inj hs
    exact ⟨by decide, by decide⟩
  · rw [PromLine.named, if_neg hname] at hs
    cases hs

/-- The sample `pqproxy_pool_waiters{a="x 7"} 3`. -/
def blankSample : PromSample := poolSample (some (bytes "a=\"x 7\"")) (by decide +kernel)

/-- With a blank in the labels the number behind it is reported, and not the value. -/
theorem parseReport_blankLabels :
    edgePqSidecarParseReport (promText [.sample blankSample]) 512 true = some ⟨true, 7, 0, 0⟩ ∧
      expectedReport [.sample blankSample] = ⟨true, 3, 0, 0⟩ ∧
      edgePqSidecarParseReport (promText [.sample blankSample]) 512 true ≠
        some (expectedReport [.sample blankSample]) :=
  ⟨by decide +kernel, by decide +kernel, by decide +kernel⟩

end Edgehost
