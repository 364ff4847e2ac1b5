import Mathlib.Data.List.Infix
import Mathlib.Data.List.TakeWhile
import Mathlib.Data.Int.Notation
import Mathlib.Algebra.Order.Ring.Int

/-!
# C strings

A C string is the list of its bytes before the terminating NUL, and a pointer into one is the suffix
it points at. The functions below are the ones of the C standard library in these terms: `strstr` and
`strchr` return the suffix at the match, `strtoll` returns the value and the rest (`endptr`), and
`snprintf` keeps what fits in the buffer before the terminator.
-/

/-- A byte string. -/
abbrev Bytes := List UInt8

/-- The byte of an ASCII character. -/
def charByte (c : Char) : UInt8 := UInt8.ofNat c.toNat

/-- The bytes of a string literal. -/
def bytes (s : String) : Bytes := s.toList.map charByte

/-- What a C function sees of a buffer: everything before the first NUL. -/
def cstr (b : Bytes) : Bytes := b.takeWhile (· ≠ 0)

/-- The suffix at the first occurrence of `needle`. -/
def strstr : Bytes → Bytes → Option Bytes
  | [], needle => if needle = [] then some [] else none
  | c :: cs, needle => if needle <+: c :: cs then some (c :: cs) else strstr cs needle

/-- The suffix at the first occurrence of the byte `c`. -/
def strchr : Bytes → UInt8 → Option Bytes
  | [], _ => none
  | x :: xs, c => if x = c then some (x :: xs) else strchr xs c

/-- The text left in a buffer of `cap` bytes by `snprintf` of `text`. -/
def snprintf (cap : ℕ) (text : Bytes) : Bytes := text.take (cap - 1)

/-- `%zu`, `%u` and `%llu`. -/
def decimal (n : ℕ) : Bytes := (Nat.toDigits 10 n).map charByte

/-- `%d` and `%lld`. -/
def decimalInt : ℤ → Bytes
  | .ofNat n => decimal n
  | .negSucc n => charByte '-' :: decimal (n + 1)

/-- `isspace` in the C locale. -/
def isspace (c : UInt8) : Bool := c = 32 || (9 ≤ c && c ≤ 13)

def isdigit (c : UInt8) : Bool := 48 ≤ c && c ≤ 57

/-- The number a digit string denotes. -/
def digitsValue (ds : Bytes) : ℕ := ds.foldl (fun v d => v * 10 + (d.toNat - 48)) 0

/-- Clamp to the range of a 64-bit signed integer. -/
def clampInt64 (v : ℤ) : ℤ :=
  if v < -2 ^ 63 then -2 ^ 63 else if v ≥ 2 ^ 63 then 2 ^ 63 - 1 else v

/-- An optional sign: is it a minus, and what follows. -/
def takeSign : Bytes → Bool × Bytes
  | [] => (false, [])
  | c :: s =>
    if c = charByte '-' then (true, s)
    else if c = charByte '+' then (false, s)
    else (false, c :: s)

/-- `strtoll` in base ten: the clamped value and the rest, which is all of `s` without a numeral. -/
def strtoll (s : Bytes) : ℤ × Bytes :=
  let (neg, t) := takeSign (s.dropWhile isspace)
  let ds := t.takeWhile isdigit
  if ds = [] then (0, s)
  else
    let v : ℤ := digitsValue ds
    (clampInt64 (if neg then -v else v), t.dropWhile isdigit)

/-- What holds of the bytes one by one holds of every byte. -/
theorem forall_byte {P : UInt8 → Prop} (h : ∀ n < 256, P (UInt8.ofNat n)) (b : UInt8) : P b := by
  have hb := h b.toNat b.toNat_lt
  rwa [UInt8.ofNat_toNat] at hb

/-! ## Buffers -/

@[simp] theorem length_snprintf_le (cap : ℕ) (text : Bytes) :
    (snprintf cap text).length ≤ cap - 1 :=
  List.length_take_le _ _

/-- A text that fits is kept whole. -/
theorem snprintf_of_fits {cap : ℕ} {text : Bytes} (h : text.length < cap) :
    snprintf cap text = text := by
  rw [snprintf, List.take_of_length_le (by omega)]

/-- A text of bytes of one kind, with the end or a byte of another kind behind it. -/
theorem span_append {p : UInt8 → Bool} {a tail : Bytes} (ha : ∀ b ∈ a, p b = true)
    (htail : tail = [] ∨ ∃ c t, tail = c :: t ∧ ¬p c) :
    (a ++ tail).takeWhile p = a ∧ (a ++ tail).dropWhile p = tail := by
  rw [List.takeWhile_append_of_pos ha, List.dropWhile_append_of_pos ha]
  rcases htail with rfl | ⟨c, t, rfl, hc⟩
  · exact ⟨List.append_nil a, rfl⟩
  · rw [List.takeWhile_cons_of_neg hc, List.dropWhile_cons_of_neg hc, List.append_nil]
    exact ⟨rfl, rfl⟩

/-- A search for the byte `c` ends at the first one. -/
theorem span_ne_append {a tail : Bytes} {c : UInt8} (h : c ∉ a) (htail : tail = [] ∨ ∃ t, tail = c :: t) :
    (a ++ tail).takeWhile (· ≠ c) = a ∧ (a ++ tail).dropWhile (· ≠ c) = tail := by
  refine span_append (fun b hb => decide_eq_true fun hbc => h (hbc ▸ hb)) ?_
  exact htail.imp_right fun ⟨t, ht⟩ => ⟨c, t, ht, by simp⟩

/-- What stands before the first byte `c`. -/
theorem takeWhile_ne_append {a tail : Bytes} {c : UInt8} (h : c ∉ a)
    (htail : tail = [] ∨ ∃ t, tail = c :: t) : (a ++ tail).takeWhile (· ≠ c) = a :=
  (span_ne_append h htail).1

theorem takeWhile_ne_of_not_mem {a : Bytes} {c : UInt8} (h : c ∉ a) : a.takeWhile (· ≠ c) = a := by
  have happ := takeWhile_ne_append h (Or.inl (Eq.refl []))
  rwa [List.append_nil] at happ

/-- A text without a NUL in front is kept. -/
theorem cstr_append {a : Bytes} (h : 0 ∉ a) (s : Bytes) : cstr (a ++ s) = a ++ cstr s :=
  List.takeWhile_append_of_pos fun _ hc => decide_eq_true fun h0 => h (h0 ▸ hc)

/-- The first NUL ends the text. -/
theorem cstr_append_nul {a : Bytes} (h : 0 ∉ a) (s : Bytes) : cstr (a ++ 0 :: s) = a :=
  takeWhile_ne_append h (Or.inr ⟨s, rfl⟩)

theorem cstr_of_not_mem {b : Bytes} (h : 0 ∉ b) : cstr b = b := takeWhile_ne_of_not_mem h

/-! ## Searching -/

theorem strchr_cons_self (c : UInt8) (s : Bytes) : strchr (c :: s) c = some (c :: s) := if_pos rfl

theorem strchr_cons_of_ne {x c : UInt8} (h : x ≠ c) (s : Bytes) : strchr (x :: s) c = strchr s c :=
  if_neg h

/-- A search passes over a text without the byte. -/
theorem strchr_append {a : Bytes} {c : UInt8} (h : c ∉ a) (s : Bytes) :
    strchr (a ++ s) c = strchr s c := by
  induction a with
  | nil => rfl
  | cons x a ih =>
    rw [List.mem_cons, not_or] at h
    rw [List.cons_append, strchr_cons_of_ne (Ne.symm h.1), ih h.2]

theorem strchr_eq_none {s : Bytes} {c : UInt8} : strchr s c = none ↔ c ∉ s := by
  induction s with
  | nil => simp [strchr]
  | cons x s ih =>
    by_cases hx : x = c
    · simp [hx, strchr_cons_self]
    · simp [strchr_cons_of_ne hx, ih, Ne.symm hx]

/-- The byte is found at its first occurrence. -/
theorem strchr_eq_some {s t : Bytes} {c : UInt8} :
    strchr s c = some t ↔ ∃ a b, c ∉ a ∧ s = a ++ t ∧ t = c :: b := by
  refine ⟨fun h => ?_, ?_⟩
  · induction s with
    | nil => cases h
    | cons x s ih =>
      by_cases hx : x = c
      · rw [hx, strchr_cons_self] at h
        obtain rfl := Option.some.inj h
        exact ⟨[], s, by simp, by rw [hx]; rfl, rfl⟩
      · rw [strchr_cons_of_ne hx] at h
        obtain ⟨a, b, ha, hs, ht⟩ := ih h
        refine ⟨x :: a, b, ?_, by rw [hs]; rfl, ht⟩
        simpa [Ne.symm hx] using ha
  · rintro ⟨a, b, ha, rfl, rfl⟩
    rw [strchr_append ha, strchr_cons_self]

/-- Two texts in which the same byte comes first at the same place. -/
theorem append_cons_inj {c : UInt8} {a b x y : Bytes} (ha : c ∉ a) (hb : c ∉ b)
    (h : a ++ c :: x = b ++ c :: y) : a = b ∧ x = y := by
  induction a generalizing b with
  | nil =>
    cases b with
    | nil => exact ⟨rfl, (List.cons.inj h).2⟩
    | cons e b => exact absurd ((List.cons.inj h).1 ▸ List.mem_cons_self) hb
  | cons d a ih =>
    cases b with
    | nil => exact absurd ((List.cons.inj h).1.symm ▸ List.mem_cons_self) ha
    | cons e b =>
      obtain ⟨rfl, htail⟩ := List.cons.inj h
      obtain ⟨rfl, hxy⟩ := ih (fun hm => ha (List.mem_cons_of_mem d hm))
        (fun hm => hb (List.mem_cons_of_mem d hm)) htail
      exact ⟨rfl, hxy⟩

theorem strstr_here {s n : Bytes} (h : n <+: s) : strstr s n = some s := by
  cases s with
  | nil => rw [strstr, if_pos (List.prefix_nil.mp h)]
  | cons c s => rw [strstr, if_pos h]

theorem strstr_skip {c : UInt8} {s n : Bytes} (h : ¬n <+: c :: s) :
    strstr (c :: s) n = strstr s n :=
  if_neg h

/-- A search passes over a text without the first byte of the needle. -/
theorem strstr_append {a : Bytes} {c : UInt8} (h : c ∉ a) (s n : Bytes) :
    strstr (a ++ s) (c :: n) = strstr s (c :: n) := by
  induction a with
  | nil => rfl
  | cons x a ih =>
    rw [List.mem_cons, not_or] at h
    rw [List.cons_append, strstr_skip, ih h.2]
    rw [List.cons_prefix_cons]
    exact fun hp => h.1 hp.1

/-- The needle is found at its first occurrence. -/
theorem strstr_eq_some {s t n : Bytes} (h : strstr s n = some t) : n <+: t ∧ t <:+ s := by
  induction s with
  | nil =>
    rw [strstr] at h
    split_ifs at h with hn
    obtain rfl := Option.some.inj h
    exact ⟨hn ▸ List.nil_prefix, List.suffix_rfl⟩
  | cons c s ih =>
    by_cases hp : n <+: c :: s
    · rw [strstr_here hp] at h
      obtain rfl := Option.some.inj h
      exact ⟨hp, List.suffix_rfl⟩
    · rw [strstr_skip hp] at h
      exact ⟨(ih h).1, (ih h).2.trans (List.suffix_cons c s)⟩

/-- What is found in a text is found in the text and more. -/
theorem strstr_append_of_some {s t n : Bytes} (h : strstr s n = some t) (b : Bytes) :
    strstr (s ++ b) n = some (t ++ b) := by
  induction s with
  | nil =>
    obtain ⟨hpre, hsuf⟩ := strstr_eq_some h
    obtain rfl := List.suffix_nil.mp hsuf
    obtain rfl := List.prefix_nil.mp hpre
    exact strstr_here List.nil_prefix
  | cons c s ih =>
    by_cases hp : n <+: c :: s
    · rw [strstr_here hp] at h
      obtain rfl := Option.some.inj h
      exact strstr_here (hp.trans (List.prefix_append _ _))
    · rw [strstr_skip hp] at h
      obtain ⟨hpre, hsuf⟩ := strstr_eq_some h
      -- The occurrence lies within `s`, so `c :: s` is long enough to hold the needle.
      have hlen : n.length ≤ (c :: s).length := by
        have := hpre.length_le
        have := hsuf.length_le
        rw [List.length_cons]; omega
      have hskip : ¬n <+: c :: (s ++ b) := fun hpb =>
        hp (List.prefix_of_prefix_length_le hpb (List.prefix_append (c :: s) b) hlen)
      rw [List.cons_append, strstr_skip hskip]
      exact ih h

/-- A needle that stands only at the end of a text is not in any shorter part of it. -/
theorem strstr_take_of_end {s n : Bytes} (h : strstr s n = some n) {k : ℕ} (hk : k < s.length) :
    strstr (s.take k) n = none := by
  refine Option.eq_none_iff_forall_ne_some.mpr fun t ht => ?_
  have happ := strstr_append_of_some ht (s.drop k)
  rw [List.take_append_drop, h] at happ
  have hlen := congrArg List.length (Option.some.inj happ)
  have := (strstr_eq_some ht).1.length_le
  rw [List.length_append, List.length_drop] at hlen
  omega

/-! ## Numerals -/

theorem isdigit_iff {d : UInt8} : isdigit d ↔ 48 ≤ d.toNat ∧ d.toNat ≤ 57 := by
  simp only [isdigit, Bool.and_eq_true, decide_eq_true_eq, UInt8.le_iff_toNat_le]
  rfl

theorem not_isspace_of_isdigit {d : UInt8} (h : isdigit d) : ¬isspace d := by
  rw [isdigit_iff] at h
  simp only [isspace, Bool.or_eq_true, Bool.and_eq_true, decide_eq_true_eq, UInt8.le_iff_toNat_le,
    ← UInt8.toNat_inj]
  rintro (h32 | ⟨-, h13⟩)
  · exact absurd h.1 (by rw [h32]; decide)
  · have h13 : d.toNat ≤ 13 := h13
    omega

theorem takeSign_of_isdigit {d : UInt8} (h : isdigit d) (s : Bytes) :
    takeSign (d :: s) = (false, d :: s) := by
  rw [takeSign, if_neg, if_neg]
  · rintro rfl
    exact absurd h (by decide)
  · rintro rfl
    exact absurd h (by decide)

/-- A digit as a byte. -/
theorem charByte_of_isDigit {c : Char} (h : c.isDigit) :
    (charByte c).toNat = c.toNat ∧ isdigit (charByte c) := by
  simp only [Char.isDigit, Bool.and_eq_true, decide_eq_true_eq] at h
  have h0 : 48 ≤ c.toNat := UInt32.le_iff_toNat_le.mp h.1
  have h9 : c.toNat ≤ 57 := UInt32.le_iff_toNat_le.mp h.2
  have hval : (charByte c).toNat = c.toNat := by
    rw [charByte, UInt8.toNat_ofNat']
    omega
  exact ⟨hval, isdigit_iff.mpr (hval ▸ ⟨h0, h9⟩)⟩

theorem isdigit_of_mem_decimal {n : ℕ} {c : UInt8} (h : c ∈ decimal n) : isdigit c := by
  obtain ⟨d, hd, rfl⟩ := List.mem_map.mp h
  exact (charByte_of_isDigit (Nat.isDigit_of_mem_toDigits (by decide) (by decide) hd)).2

/-- A byte that is no digit does not stand in a numeral. -/
theorem not_mem_decimal {c : UInt8} (hc : isdigit c = false) (n : ℕ) : c ∉ decimal n := fun h =>
  absurd (isdigit_of_mem_decimal h) (by rw [hc]; decide)

theorem decimal_ne_nil (n : ℕ) : decimal n ≠ [] := by
  simp [decimal]

/-- Reading a numeral gives back the number. -/
theorem digitsValue_decimal (n : ℕ) : digitsValue (decimal n) = n := by
  have hfold : ∀ (cs : List Char) (v : ℕ), (∀ c ∈ cs, c.isDigit) →
      (cs.map charByte).foldl (fun v d => v * 10 + (d.toNat - 48)) v = Nat.ofDigitChars 10 cs v := by
    intro cs
    induction cs with
    | nil => intro v _; rfl
    | cons c cs ih =>
      intro v hcs
      rw [List.forall_mem_cons] at hcs
      rw [List.map_cons, List.foldl_cons, ih _ hcs.2, (charByte_of_isDigit hcs.1).1,
        Nat.ofDigitChars_cons, Nat.mul_comm]
      rfl
  refine (hfold _ 0 fun c hc => ?_).trans Nat.ofDigitChars_ten_toDigits
  exact Nat.isDigit_of_mem_toDigits (by decide) (by decide) hc

/-- The bytes of a signed numeral are digits and at most a sign. -/
theorem mem_decimalInt {v : ℤ} {c : UInt8} (h : c ∈ decimalInt v) : isdigit c ∨ c = charByte '-' := by
  cases v with
  | ofNat n => exact .inl (isdigit_of_mem_decimal h)
  | negSucc n =>
    rcases List.mem_cons.mp h with rfl | h
    · exact .inr rfl
    · exact .inl (isdigit_of_mem_decimal h)

theorem decimalInt_ne_nil (v : ℤ) : decimalInt v ≠ [] := by
  cases v with
  | ofNat n => exact decimal_ne_nil n
  | negSucc n => exact List.cons_ne_nil _ _

/-- A text of digits ends at the first other byte. -/
theorem digits_sep {ds : Bytes} (hds : ∀ d ∈ ds, isdigit d = true) {c : UInt8} (hc : ¬isdigit c)
    (rest : Bytes) : (ds ++ c :: rest).takeWhile isdigit = ds ∧
      (ds ++ c :: rest).dropWhile isdigit = c :: rest :=
  span_append hds (Or.inr ⟨c, rest, rfl, hc⟩)

/-- A number is determined by its digits and a byte behind them that is none. -/
theorem decimal_sep_inj {n m : ℕ} {c d : UInt8} (hc : ¬isdigit c) (hd : ¬isdigit d) {x y : Bytes}
    (h : decimal n ++ c :: x = decimal m ++ d :: y) : n = m := by
  have hsame := congrArg (List.takeWhile isdigit) h
  rw [(digits_sep (fun _ hb => isdigit_of_mem_decimal hb) hc x).1,
    (digits_sep (fun _ hb => isdigit_of_mem_decimal hb) hd y).1] at hsame
  rw [← digitsValue_decimal n, hsame, digitsValue_decimal]

/-- `strtoll` on digits, after an optional minus sign. -/
theorem strtoll_digits {ds tail : Bytes} (hne : ds ≠ []) (hds : ∀ d ∈ ds, isdigit d = true)
    (htail : tail = [] ∨ ∃ c t, tail = c :: t ∧ ¬isdigit c) :
    strtoll (ds ++ tail) = (clampInt64 (digitsValue ds), tail) ∧
      strtoll (charByte '-' :: (ds ++ tail)) = (clampInt64 (-digitsValue ds), tail) := by
  obtain ⟨htake, hdrop⟩ := span_append hds htail
  constructor
  · obtain ⟨d, ds', rfl⟩ := List.exists_cons_of_ne_nil hne
    have hd := hds d List.mem_cons_self
    have hspace : (d :: ds' ++ tail).dropWhile isspace = d :: ds' ++ tail :=
      List.dropWhile_cons_of_neg (not_isspace_of_isdigit hd)
    have hsign : takeSign (d :: ds' ++ tail) = (false, d :: ds' ++ tail) := takeSign_of_isdigit hd _
    simp only [strtoll, hspace, hsign, htake, hdrop, if_neg hne]
    rfl
  · have hspace : (charByte '-' :: (ds ++ tail)).dropWhile isspace = charByte '-' :: (ds ++ tail) :=
      List.dropWhile_cons_of_neg (by decide)
    have hsign : takeSign (charByte '-' :: (ds ++ tail)) = (true, ds ++ tail) := rfl
    simp only [strtoll, hspace, hsign, htake, hdrop, if_neg hne]
    rfl

/-- **`strtoll` reads back what `%lld` writes**, up to the end or the first byte that is no digit. -/
theorem strtoll_decimalInt_tail {v : ℤ} (hlo : -2 ^ 63 ≤ v) (hhi : v < 2 ^ 63) {tail : Bytes}
    (htail : tail = [] ∨ ∃ c t, tail = c :: t ∧ ¬isdigit c) :
    strtoll (decimalInt v ++ tail) = (v, tail) := by
  have hclamp : clampInt64 v = v := by
    rw [clampInt64, if_neg (by omega), if_neg (by omega)]
  have hdigits : ∀ n, ∀ d ∈ decimal n, isdigit d = true := fun n d hd => isdigit_of_mem_decimal hd
  cases v with
  | ofNat n =>
    refine (strtoll_digits (decimal_ne_nil n) (hdigits n) htail).1.trans ?_
    rw [Int.ofNat_eq_natCast] at hclamp ⊢
    rw [digitsValue_decimal, hclamp]
  | negSucc n =>
    refine (strtoll_digits (decimal_ne_nil (n + 1)) (hdigits (n + 1)) htail).2.trans ?_
    rw [Int.negSucc_eq, ← Int.natCast_succ] at hclamp
    rw [digitsValue_decimal, Int.negSucc_eq, ← Int.natCast_succ, hclamp]

theorem strtoll_decimalInt {v : ℤ} (hlo : -2 ^ 63 ≤ v) (hhi : v < 2 ^ 63) {c : UInt8}
    (hc : ¬isdigit c) (rest : Bytes) : strtoll (decimalInt v ++ c :: rest) = (v, c :: rest) :=
  strtoll_decimalInt_tail hlo hhi (Or.inr ⟨c, rest, rfl, hc⟩)

theorem dropWhile_sep {p : UInt8 → Bool} {c : UInt8} (hc : ¬p c) (a s : Bytes) :
    (a ++ c :: s).dropWhile p = a.dropWhile p ++ c :: s := by
  rw [List.dropWhile_append, List.dropWhile_cons_of_neg hc]
  split
  · rename_i hnil
    rw [List.isEmpty_iff.mp hnil, List.nil_append]
  · rfl

theorem takeWhile_sep {p : UInt8 → Bool} {c : UInt8} (hc : ¬p c) (a s : Bytes) :
    (a ++ c :: s).takeWhile p = a.takeWhile p := by
  rw [List.takeWhile_append, List.takeWhile_cons_of_neg hc, List.append_nil]
  split
  · rename_i hall
    exact ((List.takeWhile_prefix p).eq_of_length hall).symm
  · rfl

/-- What `strtoll` returns fits a 64-bit signed integer. -/
theorem strtoll_bounds (s : Bytes) : -2 ^ 63 ≤ (strtoll s).1 ∧ (strtoll s).1 < 2 ^ 63 := by
  unfold strtoll clampInt64
  dsimp only
  split
  · dsimp only
    omega
  · dsimp only
    split_ifs <;> omega

/-- A byte that cannot stand in a numeral ends the reading there. -/
theorem strtoll_sep {c : UInt8} (hspace : ¬isspace c) (hdigit : ¬isdigit c)
    (hsign : c ≠ charByte '-' ∧ c ≠ charByte '+') (w s : Bytes) :
    strtoll (w ++ c :: s) = ((strtoll w).1, (strtoll w).2 ++ c :: s) := by
  have htake : ∀ w : Bytes,
      takeSign (w ++ c :: s) = ((takeSign w).1, (takeSign w).2 ++ c :: s) := by
    intro w
    cases w with
    | nil => simp [takeSign, hsign]
    | cons d w =>
      rw [List.cons_append, takeSign, takeSign]
      by_cases hminus : d = charByte '-'
      · rw [if_pos hminus, if_pos hminus]
      rw [if_neg hminus, if_neg hminus]
      by_cases hplus : d = charByte '+'
      · rw [if_pos hplus, if_pos hplus]
      · rw [if_neg hplus, if_neg hplus]; rfl
  unfold strtoll
  rw [dropWhile_sep hspace, htake]
  simp only [takeWhile_sep hdigit, dropWhile_sep hdigit]
  split <;> rfl
