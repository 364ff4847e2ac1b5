import Edgehost.Common.CString

/-!
# SHA-256 and HMAC (`auth_rbac.c`)

The hash that signs session cookies and proxy headers. All arithmetic on words is modulo 2³², which
is what `UInt32` gives.
-/

namespace Edgehost

/-- The eight words of the chaining state, and of a round. -/
structure Sha256State where
  a : UInt32
  b : UInt32
  c : UInt32
  d : UInt32
  e : UInt32
  f : UInt32
  g : UInt32
  h : UInt32

/-- `sha256_ctx_t`; `data` is the part of the block buffer that is filled, of `datalen` bytes. -/
structure Sha256Ctx where
  state : Sha256State
  bitlen : UInt64
  data : Bytes

def rotr (x n : UInt32) : UInt32 := (x >>> n) ||| (x <<< (32 - n))

/-- The round constants. -/
def sha256K : List UInt32 :=
  [0x428a2f98, 0x71374491, 0xb5c0fbcf, 0xe9b5dba5, 0x3956c25b,
    0x59f111f1, 0x923f82a4, 0xab1c5ed5, 0xd807aa98, 0x12835b01,
    0x243185be, 0x550c7dc3, 0x72be5d74, 0x80deb1fe, 0x9bdc06a7,
    0xc19bf174, 0xe49b69c1, 0xefbe4786, 0x0fc19dc6, 0x240ca1cc,
    0x2de92c6f, 0x4a7484aa, 0x5cb0a9dc, 0x76f988da, 0x983e5152,
    0xa831c66d, 0xb00327c8, 0xbf597fc7, 0xc6e00bf3, 0xd5a79147,
    0x06ca6351, 0x14292967, 0x27b70a85, 0x2e1b2138, 0x4d2c6dfc,
    0x53380d13, 0x650a7354, 0x766a0abb, 0x81c2c92e, 0x92722c85,
    0xa2bfe8a1, 0xa81a664b, 0xc24b8b70, 0xc76c51a3, 0xd192e819,
    0xd6990624, 0xf40e3585, 0x106aa070, 0x19a4c116, 0x1e376c08,
    0x2748774c, 0x34b0bcb5, 0x391c0cb3, 0x4ed8aa4a, 0x5b9cca4f,
    0x682e6ff3, 0x748f82ee, 0x78a5636f, 0x84c87814, 0x8cc70208,
    0x90befffa, 0xa4506ceb, 0xbef9a3f7, 0xc67178f2]

/-- A big-endian word of the block. -/
def sha256Word (data : Bytes) (j : ℕ) : UInt32 :=
  ((data.getD j 0).toUInt32 <<< 24) ||| ((data.getD (j + 1) 0).toUInt32 <<< 16) |||
    ((data.getD (j + 2) 0).toUInt32 <<< 8) ||| (data.getD (j + 3) 0).toUInt32

/-- One more word of the message schedule. -/
def sha256Extend (m : Array UInt32) : Array UInt32 :=
  let i := m.size
  let s0 := rotr (m.getD (i - 15) 0) 7 ^^^ rotr (m.getD (i - 15) 0) 18 ^^^ (m.getD (i - 15) 0 >>> 3)
  let s1 := rotr (m.getD (i - 2) 0) 17 ^^^ rotr (m.getD (i - 2) 0) 19 ^^^ (m.getD (i - 2) 0 >>> 10)
  m.push (m.getD (i - 16) 0 + s0 + m.getD (i - 7) 0 + s1)

/-- The message schedule `m[64]`. -/
def sha256Schedule (data : Bytes) : Array UInt32 :=
  Nat.repeat sha256Extend 48 ((Array.range 16).map fun i => sha256Word data (4 * i))

/-- One round. -/
def sha256Round (v : Sha256State) (k m : UInt32) : Sha256State :=
  let s1 := rotr v.e 6 ^^^ rotr v.e 11 ^^^ rotr v.e 25
  let ch := (v.e &&& v.f) ^^^ (~~~v.e &&& v.g)
  let t1 := v.h + s1 + ch + k + m
  let s0 := rotr v.a 2 ^^^ rotr v.a 13 ^^^ rotr v.a 22
  let maj := (v.a &&& v.b) ^^^ (v.a &&& v.c) ^^^ (v.b &&& v.c)
  let t2 := s0 + maj
  { a := t1 + t2, b := v.a, c := v.b, d := v.c, e := v.d + t1, f := v.e, g := v.f, h := v.g }

/-- `sha256_transform` on a whole block. -/
def sha256Transform (s : Sha256State) (data : Bytes) : Sha256State :=
  let m := sha256Schedule data
  let v := (List.range 64).foldl (fun v i => sha256Round v (sha256K.getD i 0) (m.getD i 0)) s
  { a := s.a + v.a, b := s.b + v.b, c := s.c + v.c, d := s.d + v.d,
    e := s.e + v.e, f := s.f + v.f, g := s.g + v.g, h := s.h + v.h }

/-- `sha256_init`. -/
def sha256Init : Sha256Ctx where
  state :=
    { a := 0x6a09e667, b := 0xbb67ae85, c := 0x3c6ef372, d := 0xa54ff53a,
      e := 0x510e527f, f := 0x9b05688c, g := 0x1f83d9ab, h := 0x5be0cd19 }
  bitlen := 0
  data := []

/-- One byte of `sha256_update`. -/
def sha256Push (ctx : Sha256Ctx) (b : UInt8) : Sha256Ctx :=
  let data := ctx.data ++ [b]
  if data.length = 64 then
    { state := sha256Transform ctx.state data, bitlen := ctx.bitlen + 512, data := [] }
  else { ctx with data }

/-- `sha256_update`. -/
def sha256Update (ctx : Sha256Ctx) (data : Bytes) : Sha256Ctx := data.foldl sha256Push ctx

/-- The eight bytes of the message length, most significant first. -/
def sha256Length (bitlen : UInt64) : Bytes :=
  ([56, 48, 40, 32, 24, 16, 8, 0] : List UInt64).map fun s => (bitlen >>> s).toUInt8

/-- The four bytes of a word, most significant first. -/
def sha256WordBytes (w : UInt32) : Bytes :=
  ([24, 16, 8, 0] : List UInt32).map fun s => (w >>> s).toUInt8

/-- `sha256_final`. -/
def sha256Final (ctx : Sha256Ctx) : Bytes :=
  let bitlen := ctx.bitlen + UInt64.ofNat ctx.data.length * 8
  let (state, block) :=
    if ctx.data.length < 56 then
      (ctx.state, ctx.data ++ 0x80 :: List.replicate (55 - ctx.data.length) 0)
    else
      (sha256Transform ctx.state (ctx.data ++ 0x80 :: List.replicate (63 - ctx.data.length) 0),
        List.replicate 56 0)
  let s := sha256Transform state (block ++ sha256Length bitlen)
  [s.a, s.b, s.c, s.d, s.e, s.f, s.g, s.h].flatMap sha256WordBytes

/-- `hmac_sha256`. -/
def hmacSha256 (key msg : Bytes) : Bytes :=
  let k := if key.length > 64 then sha256Final (sha256Update sha256Init key) else key
  let k := k ++ List.replicate (64 - k.length) 0
  let inner := sha256Final (sha256Update (sha256Update sha256Init (k.map (· ^^^ 0x36))) msg)
  sha256Final (sha256Update (sha256Update sha256Init (k.map (· ^^^ 0x5c))) inner)

theorem length_sha256WordBytes (w : UInt32) : (sha256WordBytes w).length = 4 := by
  simp [sha256WordBytes]

@[simp] theorem length_sha256Final (ctx : Sha256Ctx) : (sha256Final ctx).length = 32 := by
  simp only [sha256Final, List.flatMap_cons, List.flatMap_nil, List.length_append,
    length_sha256WordBytes, List.length_nil]

@[simp] theorem length_hmacSha256 (key msg : Bytes) : (hmacSha256 key msg).length = 32 := by
  simp only [hmacSha256, length_sha256Final]

end Edgehost
