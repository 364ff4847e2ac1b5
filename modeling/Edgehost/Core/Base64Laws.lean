import Edgehost.Core.Base64

/-!
# What base64 keeps, and the accumulator of the decoder

* `b64Decode_encode` is the round trip in both alphabets, with and without padding.
* `b64Defined_iff` says for which texts every step of the decoder is defined in C: the accumulator is
  never masked, so it holds the number that all digits read so far spell in base 64.
-/

namespace Edgehost

/-! ## The round trip -/

set_option maxRecDepth 4096 in
theorem b64DecodeChar_char : ∀ d < 64, b64DecodeChar (b64Char d) = some d := by decide

/-- The decoder reads digits written in any alphabet that it knows, with any padding. -/
theorem b64Decode_digits {f : ℕ → UInt8} (hf : ∀ d < 64, b64DecodeChar (f d) = some d)
    {input : Bytes} {outSz : ℕ} (hroom : input.length ≤ outSz) (k : ℕ)
    (hlen : ((b64Digits input).map f ++ List.replicate k b64Pad).length < 508) :
    b64Decode ((b64Digits input).map f ++ List.replicate k b64Pad) outSz = some input := by
  generalize htext : (b64Digits input).map f ++ List.replicate k b64Pad = text at hlen ⊢
  unfold b64Decode
  rw [if_neg (by omega), if_neg (by omega), ← htext, List.append_assoc, ← List.replicate_add]
  have hloop := b64Loop_digits hf (k + (4 - text.length % 4) % 4) (b64Digits input)
    (b64Digits_lt input) 0 [] (by simpa [b64Bytes_digits] using hroom)
  rwa [b64Bytes_digits, List.nil_append, ← htext] at hloop

theorem b64Encode_standard {input : Bytes} {outSz : ℕ}
    (hsz : (input.length + 2) / 3 * 4 + 1 ≤ outSz) :
    b64Encode input outSz false = some (b64Groups input) := by
  unfold b64Encode
  rw [if_neg (by omega), if_neg Bool.false_ne_true]

/-- **Decoding an encoding gives the bytes back**, in both alphabets, as long as the decoder takes a
text of this length. -/
theorem b64Decode_encode (input : Bytes) (url : Bool) (encSz decSz : ℕ)
    (henc : (input.length + 2) / 3 * 4 + 1 ≤ encSz) (hdec : input.length ≤ decSz) :
    ∃ text, b64Encode input encSz url = some text ∧
      (text.length < 508 → b64Decode text decSz = some input) := by
  cases url with
  | true =>
    refine ⟨_, b64Encode_url henc, fun hlen => ?_⟩
    rw [List.length_map] at hlen
    exact b64Decode_url hdec hlen
  | false =>
    refine ⟨b64Groups input, b64Encode_standard henc, ?_⟩
    rw [b64Groups_eq]
    exact b64Decode_digits b64DecodeChar_char hdec _

theorem b64Decode_encode_hello : ∃ text, b64Encode (bytes "hello") 9 false = some text ∧
    (text.length < 508 → b64Decode text 5 = some (bytes "hello")) :=
  b64Decode_encode (bytes "hello") false 9 5 (by decide) (by decide)

/-! ## The standard -/

/-- The base64 alphabet of RFC 4648. -/
def base64Char (v : ℕ) : UInt8 :=
  UInt8.ofNat (if v < 26 then 65 + v else if v < 52 then 97 + (v - 26) else if v < 62 then 48 + (v - 52)
    else if v = 62 then 43 else 47)

/-- The base64 encoding of RFC 4648: groups of 24 bits as four digits, the bits of a last group of one
or two bytes filled up with zeros to whole digits, and `=` for the digits that are missing. -/
def base64 : Bytes → Bytes
  | a :: b :: c :: rest =>
    let n := a.toNat * 2 ^ 16 + b.toNat * 2 ^ 8 + c.toNat
    [base64Char (n / 2 ^ 18), base64Char (n / 2 ^ 12 % 64), base64Char (n / 2 ^ 6 % 64),
      base64Char (n % 64)] ++ base64 rest
  | [a, b] =>
    let n := (a.toNat * 2 ^ 8 + b.toNat) * 2 ^ 2
    [base64Char (n / 2 ^ 12), base64Char (n / 2 ^ 6 % 64), base64Char (n % 64), 61]
  | [a] =>
    let n := a.toNat * 2 ^ 4
    [base64Char (n / 2 ^ 6), base64Char (n % 64), 61, 61]
  | [] => []

set_option maxRecDepth 4096 in
theorem b64Char_eq : ∀ d < 64, b64Char d = base64Char d := by decide

/-- The groups of the code are those of the standard. -/
theorem b64Groups_eq_base64 (input : Bytes) : b64Groups input = base64 input := by
  have hchars : (b64Digits input).map b64Char = (b64Digits input).map base64Char :=
    List.map_congr_left fun d hd => b64Char_eq d (b64Digits_lt input d hd)
  rw [b64Groups_eq, hchars]
  induction input using b64Digits.induct with
  | case1 a b c rest ih =>
    have ha := a.toNat_lt
    have hb := b.toNat_lt
    have hc := c.toNat_lt
    have hpad : (a :: b :: c :: rest).length % 3 = rest.length % 3 := Nat.add_mod_right _ 3
    have hrest := ih (List.map_congr_left fun d hd => b64Char_eq d (b64Digits_lt rest d hd))
    have hlast : (a.toNat * 2 ^ 16 + b.toNat * 2 ^ 8 + c.toNat) % 64 = c.toNat % 64 := by omega
    rw [hpad, base64, ← hrest]
    simp only [b64Digits, hlast, List.map_cons, List.cons_append, List.nil_append]
    congr 2
    · omega
    congr 2
    · omega
    congr 2
    omega
  | case2 a b =>
    have ha := a.toNat_lt
    have hb := b.toNat_lt
    have hpad : (3 - [a, b].length % 3) % 3 = 1 := rfl
    rw [hpad, base64]
    simp only [b64Digits, List.map_cons, List.map_nil, List.cons_append, List.nil_append,
      List.replicate_one]
    congr 2
    · omega
    congr 2
    · omega
    congr 2
    omega
  | case3 a =>
    have ha := a.toNat_lt
    have hpad : (3 - [a].length % 3) % 3 = 2 := rfl
    rw [hpad, base64]
    simp only [b64Digits, List.map_cons, List.map_nil, List.cons_append, List.nil_append,
      List.replicate_succ, List.replicate_zero]
    congr 2
    · omega
    congr 2
    omega
  | case4 => rfl

/-! ## The steps of the decoder -/

/-- The steps that the loop takes: the accumulator before each, and the digit. A step for which there
is no room has computed `val` and `valb` before it gives up. -/
def b64Steps (outSz : ℕ) : Bytes → B64Acc → List (B64Acc × ℕ)
  | [], _ => []
  | c :: cs, acc =>
    if c = b64Pad then []
    else
      match b64DecodeChar c with
      | none => []
      | some d =>
        (acc, d) ::
          match b64Take outSz acc d with
          | none => []
          | some acc => b64Steps outSz cs acc

/-- The steps of `b64_decode` on a text that its length checks admit. -/
def b64DecodeSteps (input : Bytes) (outSz : ℕ) : List (B64Acc × ℕ) :=
  b64Steps outSz (input ++ List.replicate ((4 - input.length % 4) % 4) b64Pad)
    { val := 0, valb := -8, out := [] }

/-- `INT_MAX` of a 32-bit `int`. -/
def INT_MAX : ℤ := 2 ^ 31 - 1

/-- What C asks of one step: no negative value is shifted left, the new value of `val` is an `int`, and
the right shift, where there is one, is by less than its width. -/
def StepDefined (step : B64Acc × ℕ) : Prop :=
  0 ≤ step.1.val ∧ step.1.val * 2 ^ 6 + step.2 ≤ INT_MAX ∧ step.1.valb + 6 < 32

/-- Every step of `b64_decode` is defined. -/
def B64Defined (input : Bytes) (outSz : ℕ) : Prop :=
  ∀ step ∈ b64DecodeSteps input outSz, StepDefined step

/-- The digits in front of the first byte that is none. -/
def leadingDigits (text : Bytes) : List ℕ :=
  (text.takeWhile fun c => (b64DecodeChar c).isSome).filterMap b64DecodeChar

/-- How many digits are read before the output is full. -/
def digitsRoom (outSz : ℕ) : ℕ := (4 * (outSz + 1) + 2) / 3

/-- At most five digits after the zeros in front, or six that start with a one. -/
def SmallNumeral (ds : List ℕ) : Prop :=
  (ds.dropWhile (· = 0)).length ≤ 5 ∨
    ((ds.dropWhile (· = 0)).length = 6 ∧ (ds.dropWhile (· = 0)).head? = some 1)

/-! ### The number that the digits spell -/

/-- The number with the digits `ds` after those of `v`. -/
def b64Number (v : ℕ) (ds : List ℕ) : ℕ := ds.foldl (fun v d => v * 64 + d) v

theorem b64Number_cons (v d : ℕ) (ds : List ℕ) :
    b64Number v (d :: ds) = b64Number (v * 64 + d) ds := rfl

theorem b64Number_bounds (ds : List ℕ) (hds : ∀ d ∈ ds, d < 64) (v : ℕ) :
    v * 64 ^ ds.length ≤ b64Number v ds ∧ b64Number v ds < (v + 1) * 64 ^ ds.length := by
  induction ds generalizing v with
  | nil => simp [b64Number]
  | cons d ds ih =>
    obtain ⟨hd, hds⟩ := List.forall_mem_cons.mp hds
    obtain ⟨hlow, hhigh⟩ := ih hds (v * 64 + d)
    rw [b64Number_cons, List.length_cons, pow_succ']
    refine ⟨?_, hhigh.trans_le ?_⟩
    · calc v * (64 * 64 ^ ds.length) = v * 64 * 64 ^ ds.length := (Nat.mul_assoc ..).symm
        _ ≤ (v * 64 + d) * 64 ^ ds.length := Nat.mul_le_mul_right _ (Nat.le_add_right _ _)
        _ ≤ _ := hlow
    · calc (v * 64 + d + 1) * 64 ^ ds.length ≤ ((v + 1) * 64) * 64 ^ ds.length :=
            Nat.mul_le_mul_right _ (by omega)
        _ = _ := Nat.mul_assoc ..

theorem le_b64Number (v : ℕ) (ds : List ℕ) : v ≤ b64Number v ds := by
  induction ds generalizing v with
  | nil => exact le_refl v
  | cons d ds ih =>
    rw [b64Number_cons]
    exact le_trans (by omega) (ih _)

/-- Zeros in front do not count. -/
theorem b64Number_dropZeros (ds : List ℕ) : b64Number 0 (ds.dropWhile (· = 0)) = b64Number 0 ds := by
  induction ds with
  | nil => rfl
  | cons d ds ih =>
    by_cases hd : d = 0
    · rw [List.dropWhile_cons_of_pos (by simpa using hd), ih, b64Number_cons, hd]
    · rw [List.dropWhile_cons_of_neg (by simpa using hd)]

/-- An `int` has room for five digits and one bit. -/
theorem b64Number_lt_iff (ds : List ℕ) (hds : ∀ d ∈ ds, d < 64) :
    b64Number 0 ds < 2 ^ 31 ↔ SmallNumeral ds := by
  have hsub : ∀ d ∈ ds.dropWhile (· = 0), d < 64 := fun d hd =>
    hds d ((List.dropWhile_suffix _).subset hd)
  rw [← b64Number_dropZeros, SmallNumeral]
  cases hdrop : ds.dropWhile (· = 0) with
  | nil => simp [b64Number]
  | cons d es =>
    have hpos : d ≠ 0 := by
      have hhead := List.head?_dropWhile_not (fun d => decide (d = 0)) ds
      rw [hdrop] at hhead
      simpa using hhead
    rw [hdrop] at hsub
    obtain ⟨hd, hes⟩ := List.forall_mem_cons.mp hsub
    obtain ⟨hlow, hhigh⟩ := b64Number_bounds es hes d
    rw [b64Number_cons, Nat.zero_mul, Nat.zero_add, List.length_cons, List.head?_cons, Option.some_inj]
    rcases Nat.lt_trichotomy es.length 5 with hlen | hlen | hlen
    · -- five digits are less than 2 ^ 30
      have hpow : 64 ^ es.length ≤ 64 ^ 4 := Nat.pow_le_pow_right (by omega) (by omega)
      have hmul : (d + 1) * 64 ^ es.length ≤ 64 * 64 ^ 4 := Nat.mul_le_mul (by omega) hpow
      exact iff_of_true (by omega) (Or.inl (by omega))
    · rw [hlen] at hlow hhigh
      omega
    · have hpow : 64 ^ 6 ≤ 64 ^ es.length := Nat.pow_le_pow_right (by omega) (by omega)
      have hmul : 1 * 64 ^ 6 ≤ d * 64 ^ es.length := Nat.mul_le_mul (by omega) hpow
      exact iff_of_false (by omega) (by omega)

/-! ### The loop -/

/-- The steps over a list of digits. -/
def digitSteps (outSz : ℕ) : List ℕ → B64Acc → List (B64Acc × ℕ)
  | [], _ => []
  | d :: ds, acc =>
    (acc, d) ::
      match b64Take outSz acc d with
      | none => []
      | some acc => digitSteps outSz ds acc

theorem leadingDigits_cons {c : UInt8} {d : ℕ} (hdec : b64DecodeChar c = some d) (cs : Bytes) :
    leadingDigits (c :: cs) = d :: leadingDigits cs := by
  rw [leadingDigits, List.takeWhile_cons_of_pos (by simp [hdec]), List.filterMap_cons_some hdec,
    leadingDigits]

theorem leadingDigits_cons_none {c : UInt8} (hdec : b64DecodeChar c = none) (cs : Bytes) :
    leadingDigits (c :: cs) = [] := by
  rw [leadingDigits, List.takeWhile_cons_of_neg (by simp [hdec]), List.filterMap_nil]

/-- The steps depend on the digits in front only. -/
theorem b64Steps_eq (outSz : ℕ) (text : Bytes) (acc : B64Acc) :
    b64Steps outSz text acc = digitSteps outSz (leadingDigits text) acc := by
  induction text generalizing acc with
  | nil => rfl
  | cons c cs ih =>
    cases hdec : b64DecodeChar c with
    | none =>
      rw [leadingDigits_cons_none hdec]
      simp [b64Steps, hdec, digitSteps]
    | some d =>
      have hpad : c ≠ b64Pad := by
        rintro rfl
        rw [b64DecodeChar_pad] at hdec
        cases hdec
      rw [leadingDigits_cons hdec]
      simp only [b64Steps, if_neg hpad, hdec, digitSteps, ih]

/-- Padding adds no digit. -/
theorem leadingDigits_pad (text : Bytes) (k : ℕ) :
    leadingDigits (text ++ List.replicate k b64Pad) = leadingDigits text := by
  have hpads : (List.replicate k b64Pad).takeWhile (fun c => (b64DecodeChar c).isSome) = [] := by
    cases k with
    | zero => rfl
    | succ k => rw [List.replicate_succ, List.takeWhile_cons_of_neg (by simp [b64DecodeChar_pad])]
  rw [leadingDigits, List.takeWhile_append]
  split
  · next hlen =>
    rw [hpads, List.append_nil, leadingDigits,
      (List.takeWhile_prefix _).eq_of_length hlen]
  · rfl

theorem b64DecodeChar_lt (c : UInt8) (d : ℕ) (h : b64DecodeChar c = some d) : d < 64 := by
  have hc := c.toNat_lt
  simp only [b64DecodeChar, UInt8.le_iff_toNat_le] at h
  split at h
  · cases h
    have : (charByte 'A').toNat = 65 ∧ (charByte 'Z').toNat = 90 := by decide
    omega
  · split at h
    · cases h
      have : (charByte 'a').toNat = 97 ∧ (charByte 'z').toNat = 122 := by decide
      omega
    · split at h
      · cases h
        have : (charByte '0').toNat = 48 ∧ (charByte '9').toNat = 57 := by decide
        omega
      · split at h
        · cases h
          omega
        · split at h
          · cases h
            omega
          · cases h

theorem leadingDigits_lt (text : Bytes) : ∀ d ∈ leadingDigits text, d < 64 := by
  intro d hd
  obtain ⟨c, -, hdec⟩ := List.mem_filterMap.mp hd
  exact b64DecodeChar_lt c d hdec

/-- The accumulator after `n` digits that spell `v`, with no overflow so far. -/
structure AccHolds (acc : B64Acc) (v n : ℕ) : Prop where
  val : acc.val = v
  valb : acc.valb = 6 * n - 8 * (3 * n / 4 : ℕ) - 8
  out : acc.out.length = 3 * n / 4

theorem AccHolds.stepDefined_iff {acc : B64Acc} {v n : ℕ} (h : AccHolds acc v n) (d : ℕ) :
    StepDefined (acc, d) ↔ v * 64 + d < 2 ^ 31 := by
  simp only [StepDefined, INT_MAX, h.val, h.valb]
  omega

/-- **One step without overflow**: it gives up when the output is full, and else appends a digit. -/
theorem AccHolds.take {outSz : ℕ} {acc : B64Acc} {v n : ℕ} (h : AccHolds acc v n)
    (hn : n < digitsRoom outSz) {d : ℕ} (hlt : v * 64 + d < 2 ^ 31) :
    (b64Take outSz acc d = none ∧ n + 1 = digitsRoom outSz) ∨
      ∃ acc', b64Take outSz acc d = some acc' ∧ AccHolds acc' (v * 64 + d) (n + 1) ∧
        n + 1 < digitsRoom outSz := by
  have hval : (acc.val * 2 ^ 6 + d).bmod (2 ^ 32) = ((v * 64 + d : ℕ) : ℤ) := by
    rw [h.val, Int.bmod_eq_of_le] <;> omega
  have hvalb := h.valb
  have hout := h.out
  rw [digitsRoom] at hn ⊢
  unfold b64Take
  simp only [hval]
  by_cases hbyte : acc.valb + 6 ≥ 0
  · rw [if_pos hbyte]
    by_cases hfull : acc.out.length ≥ outSz
    · rw [if_pos hfull]
      exact Or.inl ⟨rfl, by omega⟩
    · rw [if_neg hfull]
      refine Or.inr ⟨_, rfl, ⟨rfl, ?_, ?_⟩, by omega⟩
      · show acc.valb + 6 - 8 = _
        omega
      · rw [List.length_append, List.length_singleton]
        omega
  · rw [if_neg hbyte]
    refine Or.inr ⟨_, rfl, ⟨rfl, ?_, ?_⟩, by omega⟩
    · show acc.valb + 6 = _
      omega
    · show acc.out.length = _
      omega

/-- From an accumulator that holds a number, the steps are defined as long as the number with the
digits still read is an `int`. -/
theorem digitSteps_defined_iff {outSz : ℕ} (ds : List ℕ) {acc : B64Acc} {v n : ℕ}
    (h : AccHolds acc v n) (hn : n < digitsRoom outSz) (hv : v < 2 ^ 31) :
    (∀ step ∈ digitSteps outSz ds acc, StepDefined step) ↔
      b64Number v (ds.take (digitsRoom outSz - n)) < 2 ^ 31 := by
  induction ds generalizing acc v n with
  | nil => simpa [digitSteps, b64Number] using hv
  | cons d ds ih =>
    obtain ⟨m, hm⟩ : ∃ m, digitsRoom outSz - n = m + 1 := ⟨digitsRoom outSz - n - 1, by omega⟩
    rw [digitSteps, List.forall_mem_cons, h.stepDefined_iff, hm, List.take_succ_cons, b64Number_cons]
    by_cases hlt : v * 64 + d < 2 ^ 31
    · rw [and_iff_right hlt]
      rcases h.take hn hlt with ⟨htake, hlast⟩ | ⟨acc', htake, hacc', hnext⟩
      · obtain rfl : m = 0 := by omega
        simpa [htake, b64Number] using hlt
      · obtain rfl : m = digitsRoom outSz - (n + 1) := by omega
        simp only [htake]
        exact ih hacc' hnext hlt
    · exact iff_of_false (fun h => hlt h.1) fun h => hlt ((le_b64Number _ _).trans_lt h)

/-- **When no step of the decoder overflows.** This is so exactly when the digits that are read are at
most five, or six of which the first is a one, not counting zeros in front. -/
theorem b64Defined_iff (input : Bytes) (outSz : ℕ) :
    B64Defined input outSz ↔ SmallNumeral ((leadingDigits input).take (digitsRoom outSz)) := by
  have hstart : AccHolds { val := 0, valb := -8, out := [] } 0 0 := ⟨rfl, rfl, rfl⟩
  have hroom : 0 < digitsRoom outSz := by
    unfold digitsRoom
    omega
  rw [B64Defined, b64DecodeSteps, b64Steps_eq, leadingDigits_pad,
    digitSteps_defined_iff _ hstart hroom (by omega), Nat.sub_zero, b64Number_lt_iff]
  exact fun d hd => leadingDigits_lt input d (List.mem_of_mem_take hd)

/-- Six digits of an unauthenticated cookie overflow the accumulator. -/
theorem not_b64Defined_six : (bytes "CAAAAA").length < 508 ∧ ¬ B64Defined (bytes "CAAAAA") 320 := by
  refine ⟨by decide, fun h => ?_⟩
  have hsmall := (b64Defined_iff _ _).mp h
  have hdigits : (leadingDigits (bytes "CAAAAA")).take (digitsRoom 320) = [2, 0, 0, 0, 0, 0] := by
    decide
  rw [hdigits] at hsmall
  rcases hsmall with hlen | ⟨-, hhead⟩
  · exact absurd hlen (by decide)
  · exact absurd hhead (by decide)

/-! ## Which texts are an encoding -/

/-- The digits end with a byte: a partial group has two or three digits, and the bits left over are
zero. -/
def NoLeftover : List ℕ → Prop
  | _ :: _ :: _ :: _ :: rest => NoLeftover rest
  | [_, _, d] => d % 4 = 0
  | [_, d] => d % 16 = 0
  | [_] => False
  | [] => True

/-- A text of the URL alphabet alone, without leftover bits. -/
def CanonicalUrl (s : Bytes) : Prop :=
  (∀ c ∈ s, (b64DecodeChar c).isSome ∧ c ≠ charByte '+' ∧ c ≠ charByte '/') ∧
    NoLeftover (leadingDigits s)

theorem b64Digits_bytes_iff (ds : List ℕ) (hds : ∀ d ∈ ds, d < 64) :
    b64Digits (b64Bytes ds) = ds ↔ NoLeftover ds := by
  induction ds using NoLeftover.induct with
  | case1 d₀ d₁ d₂ d₃ rest ih =>
    simp only [List.forall_mem_cons] at hds
    obtain ⟨h₀, h₁, h₂, h₃, hrest⟩ := hds
    rw [NoLeftover, ← ih hrest, b64Bytes, b64Digits]
    simp only [UInt8.toNat_ofNat', List.cons.injEq]
    refine ⟨fun h => h.2.2.2.2, fun h => ⟨?_, ?_, ?_, ?_, h⟩⟩ <;> omega
  | case2 d₀ d₁ d₂ =>
    simp only [List.forall_mem_cons] at hds
    simp only [NoLeftover, b64Bytes, b64Digits, UInt8.toNat_ofNat', List.cons.injEq, and_true]
    omega
  | case3 d₀ d₁ =>
    simp only [List.forall_mem_cons] at hds
    simp only [NoLeftover, b64Bytes, b64Digits, UInt8.toNat_ofNat', List.cons.injEq, and_true]
    omega
  | case4 d => simp [NoLeftover, b64Bytes, b64Digits]
  | case5 => simp [NoLeftover, b64Bytes, b64Digits]

/-! ### What the decoder reads -/

/-- A larger buffer changes nothing for a digit that found room. -/
theorem b64Take_mono {outSz outSz' : ℕ} (hle : outSz ≤ outSz') {acc acc' : B64Acc} {d : ℕ}
    (h : b64Take outSz acc d = some acc') : b64Take outSz' acc d = some acc' := by
  unfold b64Take at h ⊢
  dsimp only at h ⊢
  by_cases hbyte : acc.valb + 6 ≥ 0
  · rw [if_pos hbyte] at h ⊢
    by_cases hfull : acc.out.length ≥ outSz
    · rw [if_pos hfull] at h
      cases h
    · rw [if_neg hfull] at h
      rwa [if_neg (by omega)]
  · rwa [if_neg hbyte] at h ⊢

/-- What is read depends on the digits in front only, whatever alphabet they are written in. -/
theorem b64Loop_leadingDigits {outSz outSz' : ℕ} (hle : outSz ≤ outSz') {text : Bytes} {acc : B64Acc}
    {out : Bytes} (h : b64Loop outSz text acc = some out) :
    b64Loop outSz' ((leadingDigits text).map b64UrlDigit) acc = some out := by
  induction text generalizing acc with
  | nil => exact h
  | cons c cs ih =>
    rw [b64Loop] at h
    by_cases hpad : c = b64Pad
    · rw [if_pos hpad] at h
      subst hpad
      rwa [leadingDigits_cons_none b64DecodeChar_pad]
    · rw [if_neg hpad] at h
      cases hdec : b64DecodeChar c with
      | none =>
        rw [hdec] at h
        cases h
      | some d =>
        have hlt := b64DecodeChar_lt c d hdec
        simp only [hdec] at h
        cases htake : b64Take outSz acc d with
        | none =>
          rw [htake] at h
          cases h
        | some acc' =>
          simp only [htake] at h
          rw [leadingDigits_cons hdec, List.map_cons, b64Loop, if_neg (b64UrlDigit_ne_pad hlt),
            b64DecodeChar_urlDigit d hlt]
          simp only [b64Take_mono hle htake]
          exact ih h

/-- **What the decoder returns** are the bytes of the digits in front. -/
theorem b64Bytes_of_decode {s b : Bytes} {outSz : ℕ} (h : b64Decode s outSz = some b) :
    b = b64Bytes (leadingDigits s) := by
  unfold b64Decode at h
  split_ifs at h
  have hloop := b64Loop_leadingDigits (Nat.le_add_right outSz (b64Bytes (leadingDigits s)).length) h
  rw [leadingDigits_pad] at hloop
  have hroom : ([] : Bytes).length + (b64Bytes (leadingDigits s)).length
      ≤ outSz + (b64Bytes (leadingDigits s)).length := by simp
  have hdigits := b64Loop_digits b64DecodeChar_urlDigit 0 (leadingDigits s) (leadingDigits_lt s) 0 []
    hroom
  rw [List.replicate_zero, List.append_nil, hloop] at hdigits
  exact Option.some.inj hdigits

/-- A digit that is not written in the standard alphabet only is the URL character of its value. -/
theorem urlDigit_of_decodeChar (c : UInt8) : ∀ d ∈ b64DecodeChar c,
    c = charByte '+' ∨ c = charByte '/' ∨ b64UrlDigit d = c :=
  forall_byte (P := fun c => ∀ d ∈ b64DecodeChar c,
    c = charByte '+' ∨ c = charByte '/' ∨ b64UrlDigit d = c) (by decide +kernel) c

/-- A text of the URL alphabet is the characters of its digits. -/
theorem map_urlDigit_leadingDigits {s : Bytes}
    (hs : ∀ c ∈ s, (b64DecodeChar c).isSome ∧ c ≠ charByte '+' ∧ c ≠ charByte '/') :
    (leadingDigits s).map b64UrlDigit = s := by
  induction s with
  | nil => rfl
  | cons c cs ih =>
    obtain ⟨⟨hsome, hplus, hslash⟩, hcs⟩ := List.forall_mem_cons.mp hs
    obtain ⟨d, hdec⟩ := Option.isSome_iff_exists.mp hsome
    have hchar := ((urlDigit_of_decodeChar c d hdec).resolve_left hplus).resolve_left hslash
    rw [leadingDigits_cons hdec, List.map_cons, ih hcs, hchar]

theorem leadingDigits_map_urlDigit {ds : List ℕ} (hds : ∀ d ∈ ds, d < 64) :
    leadingDigits (ds.map b64UrlDigit) = ds := by
  induction ds with
  | nil => rfl
  | cons d ds ih =>
    obtain ⟨hd, hds⟩ := List.forall_mem_cons.mp hds
    have hdec := b64DecodeChar_urlDigit d hd
    rw [List.map_cons, leadingDigits_cons hdec, ih hds]

set_option maxRecDepth 4096 in
theorem urlDigit_not_standard : ∀ d < 64,
    b64UrlDigit d ≠ charByte '+' ∧ b64UrlDigit d ≠ charByte '/' := by decide

/-- **Which accepted texts are the encoding of what they decode to**: the canonical ones. -/
theorem b64Encode_decode_iff {s b : Bytes} {outSz encSz : ℕ} (h : b64Decode s outSz = some b)
    (henc : (b.length + 2) / 3 * 4 + 1 ≤ encSz) :
    b64Encode b encSz true = some s ↔ CanonicalUrl s := by
  obtain rfl := b64Bytes_of_decode h
  have hlt := leadingDigits_lt s
  rw [b64Encode_url henc, Option.some_inj, CanonicalUrl, ← b64Digits_bytes_iff _ hlt]
  constructor
  · intro hs
    have hback := leadingDigits_map_urlDigit (b64Digits_lt (b64Bytes (leadingDigits s)))
    rw [hs] at hback
    refine ⟨fun c hc => ?_, hback.symm⟩
    rw [← hs] at hc
    obtain ⟨d, hd, rfl⟩ := List.mem_map.mp hc
    have hd := b64Digits_lt _ d hd
    exact ⟨by rw [b64DecodeChar_urlDigit d hd]; rfl, urlDigit_not_standard d hd⟩
  · rintro ⟨hs, hdigits⟩
    rw [hdigits, map_urlDigit_leadingDigits hs]

end Edgehost
