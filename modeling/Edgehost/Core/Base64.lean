import Edgehost.Common.CString
import Mathlib.Data.List.DropRight
import Mathlib.Tactic.IntervalCases

/-!
# Base64 (`auth_rbac.c`)

The encoder writes four characters for three bytes; for cookies it uses the URL alphabet and strips
the padding. The decoder takes both alphabets, stops at the first `=` and keeps its bits in a 32-bit
signed accumulator that it never clears.

* `b64Digits` are the 6-bit digits of a byte string, and `b64Encode_url` says that the URL encoding is
  their characters.
* `b64Loop_digits` says that the decoder reads digits back as bytes, whatever was in the accumulator.
* `b64Decode_url` is the round trip.
-/

namespace Edgehost

/-! ## The code -/

def b64Alphabet : Bytes :=
  bytes "ABCDEFGHIJKLMNOPQRSTUVWXYZabcdefghijklmnopqrstuvwxyz0123456789+/"

def b64Char (n : ℕ) : UInt8 := b64Alphabet.getD n 0

/-- The padding character. -/
def b64Pad : UInt8 := charByte '='

/-- The loop of `b64_encode` and its tail of one or two bytes. -/
def b64Groups : Bytes → Bytes
  | a :: b :: c :: rest =>
    let n := a.toNat <<< 16 ||| b.toNat <<< 8 ||| c.toNat
    b64Char (n >>> 18 &&& 63) :: b64Char (n >>> 12 &&& 63) :: b64Char (n >>> 6 &&& 63) ::
      b64Char (n &&& 63) :: b64Groups rest
  | [a, b] =>
    let n := a.toNat <<< 16 ||| b.toNat <<< 8
    [b64Char (n >>> 18 &&& 63), b64Char (n >>> 12 &&& 63), b64Char (n >>> 6 &&& 63), b64Pad]
  | [a] =>
    let n := a.toNat <<< 16
    [b64Char (n >>> 18 &&& 63), b64Char (n >>> 12 &&& 63), b64Pad, b64Pad]
  | [] => []

/-- The URL alphabet. -/
def b64UrlChar (c : UInt8) : UInt8 :=
  if c = charByte '+' then charByte '-' else if c = charByte '/' then charByte '_' else c

/-- `b64_encode` into a buffer of `outSz` bytes. -/
def b64Encode (input : Bytes) (outSz : ℕ) (url : Bool) : Option Bytes :=
  if outSz < (input.length + 2) / 3 * 4 + 1 then none
  else if url then some (((b64Groups input).map b64UrlChar).rdropWhile (· = b64Pad))
  else some (b64Groups input)

/-- `b64_decode_char`; `none` is -1. -/
def b64DecodeChar (c : UInt8) : Option ℕ :=
  if charByte 'A' ≤ c ∧ c ≤ charByte 'Z' then some (c.toNat - (charByte 'A').toNat)
  else if charByte 'a' ≤ c ∧ c ≤ charByte 'z' then some (c.toNat - (charByte 'a').toNat + 26)
  else if charByte '0' ≤ c ∧ c ≤ charByte '9' then some (c.toNat - (charByte '0').toNat + 52)
  else if c = charByte '+' ∨ c = charByte '-' then some 62
  else if c = charByte '/' ∨ c = charByte '_' then some 63
  else none

/-- The accumulator of `b64_decode`: the 32-bit `val`, `valb` and the bytes written. -/
structure B64Acc where
  val : ℤ
  valb : ℤ
  out : Bytes

/-- One digit: `val = (val << 6) + c` in 32 bits, and a byte when eight bits are there. -/
def b64Take (outSz : ℕ) (acc : B64Acc) (d : ℕ) : Option B64Acc :=
  let val := (acc.val * 2 ^ 6 + d).bmod (2 ^ 32)
  let valb := acc.valb + 6
  if valb ≥ 0 then
    if acc.out.length ≥ outSz then none
    else
      let byte := UInt8.ofNat (val / 2 ^ valb.toNat % 256).toNat
      some { val, valb := valb - 8, out := acc.out ++ [byte] }
  else some { val, valb, out := acc.out }

/-- The loop of `b64_decode`. -/
def b64Loop (outSz : ℕ) : Bytes → B64Acc → Option Bytes
  | [], acc => some acc.out
  | c :: cs, acc =>
    if c = b64Pad then some acc.out
    else
      match b64DecodeChar c with
      | none => none
      | some d =>
        match b64Take outSz acc d with
        | none => none
        | some acc => b64Loop outSz cs acc

/-- `b64_decode` into a buffer of `outSz` bytes. -/
def b64Decode (input : Bytes) (outSz : ℕ) : Option Bytes :=
  if input.length % 4 ≠ 0 ∧ input.length + (4 - input.length % 4) ≥ 512 then none
  else if input.length ≥ 512 - 4 then none
  else
    let padded := input ++ List.replicate ((4 - input.length % 4) % 4) b64Pad
    b64Loop outSz padded { val := 0, valb := -8, out := [] }

/-! ## Digits -/

/-- The 6-bit digits of a byte string; the last one or two bytes give two or three. -/
def b64Digits : Bytes → List ℕ
  | a :: b :: c :: rest =>
    a.toNat / 4 :: (a.toNat % 4 * 16 + b.toNat / 16) :: (b.toNat % 16 * 4 + c.toNat / 64) ::
      c.toNat % 64 :: b64Digits rest
  | [a, b] => [a.toNat / 4, a.toNat % 4 * 16 + b.toNat / 16, b.toNat % 16 * 4]
  | [a] => [a.toNat / 4, a.toNat % 4 * 16]
  | [] => []

/-- The bytes that a string of digits holds; leftover bits are dropped. -/
def b64Bytes : List ℕ → Bytes
  | d₀ :: d₁ :: d₂ :: d₃ :: rest =>
    UInt8.ofNat ((d₀ * 64 + d₁) / 16) :: UInt8.ofNat ((d₁ * 64 + d₂) / 4) ::
      UInt8.ofNat (d₂ * 64 + d₃) :: b64Bytes rest
  | [d₀, d₁, d₂] => [UInt8.ofNat ((d₀ * 64 + d₁) / 16), UInt8.ofNat ((d₁ * 64 + d₂) / 4)]
  | [d₀, d₁] => [UInt8.ofNat ((d₀ * 64 + d₁) / 16)]
  | _ => []

/-- The URL character of a digit. -/
def b64UrlDigit (d : ℕ) : UInt8 := b64UrlChar (b64Char d)

theorem b64Digits_lt (input : Bytes) : ∀ d ∈ b64Digits input, d < 64 := by
  induction input using b64Digits.induct with
  | case1 a b c rest ih =>
    have ha := a.toNat_lt
    have hb := b.toNat_lt
    intro d hd
    simp only [b64Digits, List.mem_cons] at hd
    rcases hd with rfl | rfl | rfl | rfl | hd
    · omega
    · omega
    · have := c.toNat_lt
      omega
    · omega
    · exact ih d hd
  | case2 a b =>
    have ha := a.toNat_lt
    have hb := b.toNat_lt
    simp [b64Digits]
    omega
  | case3 a =>
    have ha := a.toNat_lt
    simp [b64Digits]
    omega
  | case4 => simp [b64Digits]

private theorem ofNat_eq_of_mod {n : ℕ} {b : UInt8} (h : n % 256 = b.toNat) : UInt8.ofNat n = b :=
  UInt8.toNat_inj.mp (by rw [UInt8.toNat_ofNat', h])

/-- Reading the digits of a byte string gives it back. -/
theorem b64Bytes_digits (input : Bytes) : b64Bytes (b64Digits input) = input := by
  induction input using b64Digits.induct with
  | case1 a b c rest ih =>
    have ha := a.toNat_lt
    have hb := b.toNat_lt
    have hc := c.toNat_lt
    rw [b64Digits, b64Bytes, ih]
    congr 1
    · exact ofNat_eq_of_mod (by omega)
    congr 1
    · exact ofNat_eq_of_mod (by omega)
    congr 1
    exact ofNat_eq_of_mod (by omega)
  | case2 a b =>
    have ha := a.toNat_lt
    have hb := b.toNat_lt
    rw [b64Digits, b64Bytes]
    congr 1
    · exact ofNat_eq_of_mod (by omega)
    congr 1
    exact ofNat_eq_of_mod (by omega)
  | case3 a =>
    have ha := a.toNat_lt
    rw [b64Digits, b64Bytes]
    congr 1
    exact ofNat_eq_of_mod (by omega)
  | case4 => rfl

/-! ## The encoder -/

set_option maxRecDepth 4096 in
theorem b64DecodeChar_urlDigit : ∀ d < 64, b64DecodeChar (b64UrlDigit d) = some d := by decide

theorem b64DecodeChar_pad : b64DecodeChar b64Pad = none := by decide

theorem b64UrlDigit_ne_pad {d : ℕ} (hd : d < 64) : b64UrlDigit d ≠ b64Pad := by
  intro h
  have hdec := b64DecodeChar_urlDigit d hd
  rw [h, b64DecodeChar_pad] at hdec
  cases hdec

/-- The dot separates the parts of a cookie; no digit is written with it. -/
theorem b64UrlDigit_ne_dot {d : ℕ} (hd : d < 64) : b64UrlDigit d ≠ charByte '.' := by
  intro h
  have hdec := b64DecodeChar_urlDigit d hd
  have hdot : b64DecodeChar (charByte '.') = none := by decide
  rw [h, hdot] at hdec
  cases hdec

private theorem packed_eq {a b c : ℕ} (hb : b < 256) (hc : c < 256) :
    a <<< 16 ||| b <<< 8 ||| c = a * 65536 + b * 256 + c := by
  have hb' : b <<< 8 < 2 ^ 16 := by rw [Nat.shiftLeft_eq]; omega
  rw [← Nat.shiftLeft_add_eq_or_of_lt hb']
  have hab : a <<< 16 + b <<< 8 = (a * 256 + b) <<< 8 := by simp only [Nat.shiftLeft_eq]; omega
  rw [hab, ← Nat.shiftLeft_add_eq_or_of_lt (by omega), Nat.shiftLeft_eq]
  omega

private theorem packed_eq₂ {a b : ℕ} (hb : b < 256) : a <<< 16 ||| b <<< 8 = a * 65536 + b * 256 := by
  have h := packed_eq (a := a) (c := 0) hb (by omega)
  rwa [Nat.or_zero, Nat.add_zero] at h

private theorem digit_eq (n k : ℕ) : n >>> k &&& 63 = n / 2 ^ k % 64 := by
  rw [Nat.shiftRight_eq_div_pow]
  exact Nat.and_two_pow_sub_one_eq_mod _ 6

/-- The characters written, before the alphabet is chosen: one for each digit, and padding to whole
groups. -/
theorem b64Groups_eq (input : Bytes) :
    b64Groups input
      = (b64Digits input).map b64Char ++ List.replicate ((3 - input.length % 3) % 3) b64Pad := by
  induction input using b64Digits.induct with
  | case1 a b c rest ih =>
    have ha := a.toNat_lt
    have hb := b.toNat_lt
    have hc := c.toNat_lt
    have hlast : (a.toNat * 65536 + b.toNat * 256 + c.toNat) &&& 63 = c.toNat % 64 := by
      rw [Nat.and_two_pow_sub_one_eq_mod _ 6]
      omega
    have hpad : (a :: b :: c :: rest).length % 3 = rest.length % 3 := Nat.add_mod_right _ 3
    simp only [b64Groups, b64Digits, packed_eq hb hc, digit_eq, hlast, ih, hpad, List.map_cons,
      List.cons_append]
    congr 2
    · omega
    congr 2
    · omega
    congr 2
    omega
  | case2 a b =>
    have ha := a.toNat_lt
    have hb := b.toNat_lt
    have hpad : (3 - [a, b].length % 3) % 3 = 1 := rfl
    simp only [b64Groups, b64Digits, packed_eq₂ hb, digit_eq, hpad, List.map_cons, List.map_nil,
      List.cons_append, List.nil_append, List.replicate_one]
    congr 2
    · omega
    congr 2
    · omega
    congr 2
    omega
  | case3 a =>
    have ha := a.toNat_lt
    have hpad : (3 - [a].length % 3) % 3 = 2 := rfl
    simp only [b64Groups, b64Digits, Nat.shiftLeft_eq, digit_eq, hpad, List.map_cons, List.map_nil,
      List.cons_append, List.nil_append, List.replicate_succ, List.replicate_zero]
    congr 2
    · omega
    congr 2
    omega
  | case4 => rfl

private theorem rdropWhile_append_replicate {p : UInt8 → Bool} {x : UInt8} (hx : p x = true)
    (l : Bytes) (k : ℕ) : (l ++ List.replicate k x).rdropWhile p = l.rdropWhile p := by
  induction k with
  | zero => simp
  | succ k ih =>
    rw [List.replicate_succ', ← List.append_assoc, List.rdropWhile_concat_pos _ _ _ hx, ih]

/-- **The URL encoding is the characters of the digits**, without padding. -/
theorem b64Encode_url {input : Bytes} {outSz : ℕ} (hsz : (input.length + 2) / 3 * 4 + 1 ≤ outSz) :
    b64Encode input outSz true = some ((b64Digits input).map b64UrlDigit) := by
  have hpad : b64UrlChar b64Pad = b64Pad := by decide
  have hstrip : ((b64Digits input).map b64UrlDigit).rdropWhile (· = b64Pad)
      = (b64Digits input).map b64UrlDigit := by
    rw [List.rdropWhile_eq_self_iff]
    intro hne
    obtain ⟨d, hd, hlast⟩ := List.mem_map.mp (List.getLast_mem hne)
    rw [← hlast]
    simpa using b64UrlDigit_ne_pad (b64Digits_lt input d hd)
  unfold b64Encode
  rw [if_neg (by omega), if_pos rfl, b64Groups_eq, List.map_append, List.map_replicate, hpad, List.map_map,
    rdropWhile_append_replicate (by decide)]
  exact congrArg some hstrip

theorem length_b64Digits (input : Bytes) : (b64Digits input).length = (input.length * 4 + 2) / 3 := by
  induction input using b64Digits.induct with
  | case1 a b c rest ih =>
    simp only [b64Digits, List.length_cons, ih]
    omega
  | case2 a b => simp [b64Digits]
  | case3 a => simp [b64Digits]
  | case4 => simp [b64Digits]

/-! ## The decoder -/

/-- The byte made from two digits does not depend on older bits of the accumulator, nor on the wrap
at 32 bits. -/
private theorem byte_eq (v : ℤ) (d d' : ℕ) {k : ℕ} (hk : k = 0 ∨ k = 2 ∨ k = 4) :
    UInt8.ofNat (((v * 2 ^ 6 + d).bmod (2 ^ 32) * 2 ^ 6 + d').bmod (2 ^ 32) / 2 ^ k % 256).toNat
      = UInt8.ofNat ((d * 64 + d') / 2 ^ k) := by
  refine UInt8.toNat_inj.mp ?_
  rw [UInt8.toNat_ofNat', UInt8.toNat_ofNat', Int.bmod_eq_self_sub_mul_bdiv,
    Int.bmod_eq_self_sub_mul_bdiv]
  rcases hk with rfl | rfl | rfl <;> omega

/-- A digit that completes no byte. -/
private theorem b64Take_first (outSz : ℕ) (v : ℤ) (out : Bytes) (d : ℕ) :
    b64Take outSz { val := v, valb := -8, out } d
      = some { val := (v * 2 ^ 6 + d).bmod (2 ^ 32), valb := -2, out } := by
  simp [b64Take]

/-- A digit that completes a byte with the digit before it. -/
private theorem b64Take_byte {outSz : ℕ} {out : Bytes} (hroom : out.length < outSz) (v : ℤ)
    (d d' : ℕ) {k : ℕ} (hk : k = 0 ∨ k = 2 ∨ k = 4) {valb valb' : ℤ} (hvalb : valb + 6 = k)
    (hvalb' : (k : ℤ) - 8 = valb') :
    b64Take outSz { val := (v * 2 ^ 6 + d).bmod (2 ^ 32), valb, out } d'
      = some { val := ((v * 2 ^ 6 + d).bmod (2 ^ 32) * 2 ^ 6 + d').bmod (2 ^ 32), valb := valb',
               out := out ++ [UInt8.ofNat ((d * 64 + d') / 2 ^ k)] } := by
  unfold b64Take
  simp only [hvalb, hvalb', Int.toNat_natCast]
  rw [if_pos (by omega), if_neg (by omega), byte_eq v d d' hk]

theorem b64Loop_pad (outSz k : ℕ) (acc : B64Acc) :
    b64Loop outSz (List.replicate k b64Pad) acc = some acc.out := by
  cases k with
  | zero => rfl
  | succ k => simp [List.replicate_succ, b64Loop]

section Loop

variable {f : ℕ → UInt8} (hf : ∀ d < 64, b64DecodeChar (f d) = some d) {outSz : ℕ}

include hf in
private theorem b64Loop_cons {acc acc' : B64Acc} {d : ℕ} (hd : d < 64)
    (htake : b64Take outSz acc d = some acc') (cs : Bytes) :
    b64Loop outSz (f d :: cs) acc = b64Loop outSz cs acc' := by
  have hne : f d ≠ b64Pad := by
    intro h
    have hdec := hf d hd
    rw [h, b64DecodeChar_pad] at hdec
    cases hdec
  rw [b64Loop, if_neg hne, hf d hd]
  simp only [htake]

include hf in
/-- **The decoder reads digits back as bytes**, whatever bits are left in the accumulator. -/
theorem b64Loop_digits (k : ℕ) (ds : List ℕ) (hds : ∀ d ∈ ds, d < 64) (v : ℤ) (out : Bytes)
    (hroom : out.length + (b64Bytes ds).length ≤ outSz) :
    b64Loop outSz (ds.map f ++ List.replicate k b64Pad) { val := v, valb := -8, out }
      = some (out ++ b64Bytes ds) := by
  -- the invariant between groups: no unfinished byte, so `valb` is -8 and `val` does not matter
  induction ds using b64Bytes.induct generalizing v out with
  | case1 d₀ d₁ d₂ d₃ rest ih =>
    simp only [List.mem_cons, forall_eq_or_imp] at hds
    obtain ⟨h₀, h₁, h₂, h₃, hrest⟩ := hds
    simp only [b64Bytes, List.length_cons] at hroom
    simp only [List.map_cons, List.cons_append]
    refine (b64Loop_cons hf h₀ (b64Take_first ..) _).trans ?_
    refine (b64Loop_cons hf h₁ (b64Take_byte ?_ v d₀ d₁ (.inr (.inr rfl)) rfl rfl) _).trans ?_
    · omega
    refine (b64Loop_cons hf h₂ (b64Take_byte ?_ _ d₁ d₂ (.inr (.inl rfl)) rfl rfl) _).trans ?_
    · simp only [List.length_append, List.length_singleton]
      omega
    refine (b64Loop_cons hf h₃ (b64Take_byte ?_ _ d₂ d₃ (.inl rfl) rfl rfl) _).trans ?_
    · simp only [List.length_append, List.length_singleton]
      omega
    refine (ih hrest _ _ ?_).trans ?_
    · simp only [List.length_append, List.length_singleton]
      omega
    · simp [b64Bytes]
  | case2 d₀ d₁ d₂ =>
    simp only [List.forall_mem_cons] at hds
    obtain ⟨h₀, h₁, h₂, -⟩ := hds
    simp only [b64Bytes, List.length_cons, List.length_nil] at hroom
    simp only [List.map_cons, List.cons_append, List.map_nil, List.nil_append]
    refine (b64Loop_cons hf h₀ (b64Take_first ..) _).trans ?_
    refine (b64Loop_cons hf h₁ (b64Take_byte ?_ v d₀ d₁ (.inr (.inr rfl)) rfl rfl) _).trans ?_
    · omega
    refine (b64Loop_cons hf h₂ (b64Take_byte ?_ _ d₁ d₂ (.inr (.inl rfl)) rfl rfl) _).trans ?_
    · simp only [List.length_append, List.length_singleton]
      omega
    rw [b64Loop_pad]
    simp [b64Bytes]
  | case3 d₀ d₁ =>
    simp only [List.forall_mem_cons] at hds
    obtain ⟨h₀, h₁, -⟩ := hds
    simp only [b64Bytes, List.length_cons, List.length_nil] at hroom
    simp only [List.map_cons, List.cons_append, List.map_nil, List.nil_append]
    refine (b64Loop_cons hf h₀ (b64Take_first ..) _).trans ?_
    refine (b64Loop_cons hf h₁ (b64Take_byte ?_ v d₀ d₁ (.inr (.inr rfl)) rfl rfl) _).trans ?_
    · omega
    rw [b64Loop_pad]
    simp [b64Bytes]
  | case4 ds hne₄ hne₃ hne₂ =>
    -- no digit, or one digit alone
    match ds, hne₄, hne₃, hne₂ with
    | [], _, _, _ => simp [b64Loop_pad, b64Bytes]
    | [d], _, _, _ =>
      simp only [List.mem_singleton, forall_eq] at hds
      simp only [List.map_cons, List.cons_append, List.map_nil, List.nil_append]
      refine (b64Loop_cons hf hds (b64Take_first ..) _).trans ?_
      rw [b64Loop_pad]
      simp [b64Bytes]
    | [d₀, d₁], _, _, h => exact absurd rfl (h d₀ d₁)
    | [d₀, d₁, d₂], _, h, _ => exact absurd rfl (h d₀ d₁ d₂)
    | d₀ :: d₁ :: d₂ :: d₃ :: rest, h, _, _ => exact absurd rfl (h d₀ d₁ d₂ d₃ rest)

end Loop

/-- **Decoding the URL encoding** gives the bytes back, when both fit their buffers. -/
theorem b64Decode_url {input : Bytes} {outSz : ℕ} (hroom : input.length ≤ outSz)
    (hlen : (b64Digits input).length < 508) :
    b64Decode ((b64Digits input).map b64UrlDigit) outSz = some input := by
  unfold b64Decode
  rw [List.length_map, if_neg (by omega), if_neg (by omega)]
  have hloop := b64Loop_digits b64DecodeChar_urlDigit ((4 - (b64Digits input).length % 4) % 4)
    (b64Digits input) (b64Digits_lt input) 0 [] (by simpa [b64Bytes_digits] using hroom)
  rw [b64Bytes_digits, List.nil_append] at hloop
  exact hloop

end Edgehost
