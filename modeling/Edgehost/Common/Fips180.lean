import Edgehost.Common.BlockHash
import Mathlib.Data.Nat.NthRoot.Defs
import Mathlib.Data.Nat.Prime.Basic
import Mathlib.Data.UInt
import Mathlib.Tactic.IntervalCases

/-!
# The secure hash standard (FIPS 180-4)

SHA-1 and SHA-256 of byte strings, as the standard writes them: words of 32 bits, a message schedule by
recursion, and one compression for each block of 64 bytes. Everything is a function of the whole
message.
-/

namespace Fips180

open BlockHash

/-- A word; addition is modulo 2³². -/
abbrev Word := BitVec 32

/-! ## Words and bytes -/

/-- Word `t` of a block, most significant byte first. -/
def word (M : List UInt8) (t : ℕ) : Word :=
  BitVec.ofNat 32 ((M.getD (4 * t) 0).toNat * 256 ^ 3 + (M.getD (4 * t + 1) 0).toNat * 256 ^ 2 +
    (M.getD (4 * t + 2) 0).toNat * 256 + (M.getD (4 * t + 3) 0).toNat)

/-- The lowest `k` bytes of a number, most significant first. -/
def bigEndian (k n : ℕ) : List UInt8 := (List.range k).map fun i => UInt8.ofNat (n / 256 ^ (k - 1 - i))

/-- A message, a one bit, zeros, and its length in bits as a number of 64 bits. -/
def pad : List UInt8 → List UInt8 := padding 64 8 0x80 0 fun len => bigEndian 8 (8 * len)

theorem length_bigEndian (k n : ℕ) : (bigEndian k n).length = k := by
  simp [bigEndian]

/-- The zeros end in the block of the message's last bytes, or in the next one. -/
theorem fill_eq (len : ℕ) :
    fill 64 8 len = if len % 64 < 56 then 55 - len % 64 else (63 - len % 64) + 56 := by
  unfold fill
  split_ifs <;> omega

/-- The zero bits behind the one bit are the fewest that the standard allows: for a message of `l` bits
they are the least solution of `l + 1 + k ≡ 448 (mod 512)`. -/
theorem pad_zeros (len : ℕ) : (8 * len + 1 + (8 * fill 64 8 len + 7)) % 512 = 448 ∧
    ∀ k, (8 * len + 1 + k) % 512 = 448 → 8 * fill 64 8 len + 7 ≤ k := by
  obtain ⟨q, hq⟩ := dvd_fill (n := 64) (by omega) 8 len
  refine ⟨by omega, fun k hk => ?_⟩
  -- The bits behind the last byte and the mark make up that byte.
  obtain ⟨j, rfl⟩ : ∃ j, k = 8 * j + 7 := ⟨k / 8, by omega⟩
  have hle : fill 64 8 len ≤ j := fill_least (by omega) 8 len j (by omega)
  omega

def Ch (x y z : Word) : Word := (x &&& y) ^^^ (~~~x &&& z)

def Parity (x y z : Word) : Word := x ^^^ y ^^^ z

def Maj (x y z : Word) : Word := (x &&& y) ^^^ (x &&& z) ^^^ (y &&& z)

/-! ## SHA-1 -/

/-- The hash value of SHA-1, and its working variables. -/
@[ext] structure Hash1 where
  a : Word
  b : Word
  c : Word
  d : Word
  e : Word

def initial1 : Hash1 := ⟨0x67452301, 0xefcdab89, 0x98badcfe, 0x10325476, 0xc3d2e1f0⟩

def constant1 (t : ℕ) : Word :=
  if t < 20 then 0x5a827999
  else if t < 40 then 0x6ed9eba1
  else if t < 60 then 0x8f1bbcdc
  else 0xca62c1d6

def function1 (t : ℕ) : Word → Word → Word → Word :=
  if t < 20 then Ch
  else if t < 40 then Parity
  else if t < 60 then Maj
  else Parity

/-- The message schedule of a block. -/
def schedule1 (M : List UInt8) (t : ℕ) : Word :=
  if t < 16 then word M t
  else (schedule1 M (t - 3) ^^^ schedule1 M (t - 8) ^^^ schedule1 M (t - 14) ^^^
    schedule1 M (t - 16)).rotateLeft 1

def round1 (v : Hash1) (t : ℕ) (W : Word) : Hash1 where
  a := v.a.rotateLeft 5 + function1 t v.b v.c v.d + v.e + constant1 t + W
  b := v.a
  c := v.b.rotateLeft 30
  d := v.c
  e := v.d

def compress1 (H : Hash1) (M : List UInt8) : Hash1 :=
  let v := (List.range 80).foldl (fun v t => round1 v t (schedule1 M t)) H
  ⟨v.a + H.a, v.b + H.b, v.c + H.c, v.d + H.d, v.e + H.e⟩

/-- SHA-1. -/
def sha1 (msg : List UInt8) : List UInt8 :=
  let H := foldBlocks compress1 64 initial1 (pad msg)
  [H.a, H.b, H.c, H.d, H.e].flatMap fun w => bigEndian 4 w.toNat

/-! ## SHA-256 -/

/-- Trial division. -/
def isPrime (p : ℕ) : Bool :=
  Nat.ble 2 p && (List.range p).all fun m => Nat.ble m 1 || p % m != 0

/-- The prime numbers below `n`. -/
def primesBelow (n : ℕ) : List ℕ := (List.range n).filter isPrime

theorem isPrime_iff (p : ℕ) : isPrime p = true ↔ p.Prime := by
  simp only [isPrime, Bool.and_eq_true, Nat.ble_eq, List.all_eq_true, List.mem_range,
    Bool.or_eq_true, bne_iff_ne, ne_eq, Nat.prime_def_lt, Nat.dvd_iff_mod_eq_zero]
  refine and_congr_right fun h2 => forall₂_congr fun m hm => ?_
  rcases m with _ | _ | m
  · rw [Nat.mod_zero]
    omega
  · simp
  · simp

theorem mem_primesBelow (n p : ℕ) : p ∈ primesBelow n ↔ p < n ∧ p.Prime := by
  rw [primesBelow, List.mem_filter, List.mem_range, isPrime_iff]

/-- The first 32 bits of the fractional part of the `k`-th root of `p`. -/
def rootBits (k p : ℕ) : Word := BitVec.ofNat 32 (Nat.nthRoot k (p * 2 ^ (32 * k)))

/-- One constant for each of the first 64 primes. -/
def constants256 : List Word := (primesBelow 312).map (rootBits 3)

/-- The hash value of SHA-256, and its working variables. -/
@[ext] structure Hash256 where
  a : Word
  b : Word
  c : Word
  d : Word
  e : Word
  f : Word
  g : Word
  h : Word

def initial256 : Hash256 :=
  ⟨rootBits 2 2, rootBits 2 3, rootBits 2 5, rootBits 2 7, rootBits 2 11, rootBits 2 13, rootBits 2 17,
    rootBits 2 19⟩

def bigSigma0 (x : Word) : Word := x.rotateRight 2 ^^^ x.rotateRight 13 ^^^ x.rotateRight 22

def bigSigma1 (x : Word) : Word := x.rotateRight 6 ^^^ x.rotateRight 11 ^^^ x.rotateRight 25

def smallSigma0 (x : Word) : Word := x.rotateRight 7 ^^^ x.rotateRight 18 ^^^ x >>> 3

def smallSigma1 (x : Word) : Word := x.rotateRight 17 ^^^ x.rotateRight 19 ^^^ x >>> 10

/-- The message schedule of a block. -/
def schedule256 (M : List UInt8) (t : ℕ) : Word :=
  if t < 16 then word M t
  else smallSigma1 (schedule256 M (t - 2)) + schedule256 M (t - 7) +
    smallSigma0 (schedule256 M (t - 15)) + schedule256 M (t - 16)

def round256 (v : Hash256) (K W : Word) : Hash256 :=
  let T1 := v.h + bigSigma1 v.e + Ch v.e v.f v.g + K + W
  let T2 := bigSigma0 v.a + Maj v.a v.b v.c
  { a := T1 + T2, b := v.a, c := v.b, d := v.c, e := v.d + T1, f := v.e, g := v.f, h := v.g }

def compress256 (H : Hash256) (M : List UInt8) : Hash256 :=
  let v := (List.range 64).foldl
    (fun v t => round256 v (constants256.getD t 0) (schedule256 M t)) H
  ⟨v.a + H.a, v.b + H.b, v.c + H.c, v.d + H.d, v.e + H.e, v.f + H.f, v.g + H.g, v.h + H.h⟩

/-- SHA-256. -/
def sha256 (msg : List UInt8) : List UInt8 :=
  let H := foldBlocks compress256 64 initial256 (pad msg)
  [H.a, H.b, H.c, H.d, H.e, H.f, H.g, H.h].flatMap fun w => bigEndian 4 w.toNat

/-- HMAC with SHA-256: blocks of 64 bytes, and the pads of RFC 2104. -/
def hmacSha256 : List UInt8 → List UInt8 → List UInt8 := hmac sha256 64 0x36 0x5c

/-! ## Words in registers -/

/-- A word built from four bytes by shifts. -/
theorem toBitVec_ofBytes (a b c d : UInt8) :
    (a.toUInt32 <<< 24 ||| b.toUInt32 <<< 16 ||| c.toUInt32 <<< 8 ||| d.toUInt32).toBitVec
      = BitVec.ofNat 32 (a.toNat * 256 ^ 3 + b.toNat * 256 ^ 2 + c.toNat * 256 + d.toNat) := by
  have ha := a.toNat_lt
  have hb := b.toNat_lt
  have hc := c.toNat_lt
  have hd := d.toNat_lt
  have h24 : (24 : UInt32).toNat % 32 = 24 := rfl
  have h16 : (16 : UInt32).toNat % 32 = 16 := rfl
  have h8 : (8 : UInt32).toNat % 32 = 8 := rfl
  apply BitVec.eq_of_toNat_eq
  rw [UInt32.toNat_toBitVec, BitVec.toNat_ofNat, UInt32.toNat_or, UInt32.toNat_or, UInt32.toNat_or,
    UInt32.toNat_shiftLeft, UInt32.toNat_shiftLeft, UInt32.toNat_shiftLeft, h24, h16, h8,
    UInt8.toNat_toUInt32, UInt8.toNat_toUInt32, UInt8.toNat_toUInt32, UInt8.toNat_toUInt32,
    Nat.mod_eq_of_lt (by rw [Nat.shiftLeft_eq]; omega),
    Nat.mod_eq_of_lt (by rw [Nat.shiftLeft_eq]; omega),
    Nat.mod_eq_of_lt (by rw [Nat.shiftLeft_eq]; omega), Nat.mod_eq_of_lt (by omega)]
  have h₁ : a.toNat <<< 24 ||| b.toNat <<< 16 = (a.toNat * 256 + b.toNat) <<< 16 := by
    rw [← Nat.shiftLeft_add_eq_or_of_lt (by rw [Nat.shiftLeft_eq]; omega)]
    simp only [Nat.shiftLeft_eq]
    omega
  have h₂ : (a.toNat * 256 + b.toNat) <<< 16 ||| c.toNat <<< 8
      = (a.toNat * 256 ^ 2 + b.toNat * 256 + c.toNat) <<< 8 := by
    rw [← Nat.shiftLeft_add_eq_or_of_lt (by rw [Nat.shiftLeft_eq]; omega)]
    simp only [Nat.shiftLeft_eq]
    omega
  rw [h₁, h₂, ← Nat.shiftLeft_add_eq_or_of_lt (by omega), Nat.shiftLeft_eq]
  omega

/-- The bytes of a word, taken off by shifts. -/
theorem toBytes_eq (w : UInt32) :
    (([24, 16, 8, 0] : List UInt32).map fun s => (w >>> s).toUInt8) = bigEndian 4 w.toBitVec.toNat := by
  have hbyte : ∀ (s : UInt32) (k : ℕ), s.toNat % 32 = 8 * k →
      (w >>> s).toUInt8 = UInt8.ofNat (w.toNat / 256 ^ k) := by
    intro s k hs
    rw [← UInt8.toNat_inj, UInt32.toNat_toUInt8, UInt32.toNat_shiftRight, hs, UInt8.toNat_ofNat',
      Nat.shiftRight_eq_div_pow, Nat.pow_mul]
  rw [bigEndian, UInt32.toNat_toBitVec]
  simp only [List.map_cons, List.map_nil, hbyte 24 3 rfl, hbyte 16 2 rfl, hbyte 8 1 rfl,
    hbyte 0 0 rfl, List.range_succ, List.range_zero, List.nil_append, List.cons_append]

/-- A message schedule built in an array, one word after the other. -/
theorem schedule_repeat {W : ℕ → Word} {extend : Array UInt32 → Array UInt32} {m : Array UInt32}
    (hsize : m.size = 16) (hwords : ∀ t < 16, (m.getD t 0).toBitVec = W t)
    (hextend : ∀ m : Array UInt32, 16 ≤ m.size → (∀ t < m.size, (m.getD t 0).toBitVec = W t) →
      ∃ x, extend m = m.push x ∧ x.toBitVec = W m.size) (n : ℕ) :
    (Nat.repeat extend n m).size = 16 + n ∧
      ∀ t < 16 + n, ((Nat.repeat extend n m).getD t 0).toBitVec = W t := by
  induction n with
  | zero => exact ⟨hsize, hwords⟩
  | succ n ih =>
    rw [Nat.repeat]
    generalize Nat.repeat extend n m = m' at ih ⊢
    obtain ⟨hsize', hwords'⟩ := ih
    obtain ⟨x, hpush, hx⟩ := hextend m' (by omega) (hsize'.symm ▸ hwords')
    rw [hpush]
    refine ⟨by rw [Array.size_push, hsize', Nat.add_assoc], fun t ht => ?_⟩
    rcases Nat.lt_or_ge t (16 + n) with hlt | hge
    · -- the words in front stay
      rw [← hwords' t hlt, Array.getD_eq_getD_getElem?, Array.getD_eq_getD_getElem?,
        Array.getElem?_push_lt (by omega), Array.getElem?_eq_getElem (by omega)]
    · obtain rfl : t = m'.size := by omega
      rw [Array.getD_eq_getD_getElem?, Array.getElem?_push_size, Option.getD_some, hx]

/-- The first words of a schedule are those of the block. -/
theorem blockWords {w : ℕ → UInt32} {M : List UInt8} (hw : ∀ t, (w t).toBitVec = word M t) :
    ((Array.range 16).map w).size = 16 ∧
      ∀ t < 16, (((Array.range 16).map w).getD t 0).toBitVec = word M t := by
  refine ⟨by simp, fun t ht => ?_⟩
  rw [← hw, Array.getD_eq_getD_getElem?, Array.getElem?_map,
    Array.getElem?_eq_getElem (by simpa using ht), Array.getElem_range]
  rfl

/-- The length field, from a register of 64 bits. -/
theorem lengthField_eq (n : ℕ) :
    (([56, 48, 40, 32, 24, 16, 8, 0] : List UInt64).map fun s => (UInt64.ofNat n >>> s).toUInt8)
      = bigEndian 8 n := by
  have hbyte : ∀ (s : UInt64) (k : ℕ), k < 8 → s.toNat % 64 = 8 * k →
      (UInt64.ofNat n >>> s).toUInt8 = UInt8.ofNat (n / 256 ^ k) := by
    intro s k hk hs
    rw [← UInt8.toNat_inj, UInt64.toNat_toUInt8, UInt64.toNat_shiftRight, hs, UInt8.toNat_ofNat',
      Nat.shiftRight_eq_div_pow, Nat.pow_mul, UInt64.toNat_ofNat']
    interval_cases k <;> omega
  rw [bigEndian]
  simp only [List.map_cons, List.map_nil, hbyte 56 7 (by omega) rfl, hbyte 48 6 (by omega) rfl,
    hbyte 40 5 (by omega) rfl, hbyte 32 4 (by omega) rfl, hbyte 24 3 (by omega) rfl,
    hbyte 16 2 (by omega) rfl, hbyte 8 1 (by omega) rfl, hbyte 0 0 (by omega) rfl,
    List.range_succ, List.range_zero, List.nil_append, List.cons_append]

end Fips180
