import Mathlib.Data.List.DropRight
import Edgehost.Core.Base64
import Edgehost.Host.WsHub

/-!
# The WebSocket handshake (`ws_stream.c`)

SHA-1 and base64 as `edge_ws_accept_key` uses them, and the 101 response. All arithmetic on words is
modulo 2³².
-/

namespace Edgehost

def EDGE_WS_ACCEPT_MAX : ℕ := 64

/-- The five words of the chaining state, and of a round. -/
structure Sha1State where
  a : UInt32
  b : UInt32
  c : UInt32
  d : UInt32
  e : UInt32

/-- `sha1_ctx_t`; `buffer` is the part of the block buffer that is filled. -/
structure Sha1Ctx where
  state : Sha1State
  count : UInt64
  buffer : Bytes

def sha1Rol (v n : UInt32) : UInt32 := (v <<< n) ||| (v >>> (32 - n))

/-- A big-endian word of the block. -/
def sha1Word (block : Bytes) (j : ℕ) : UInt32 :=
  ((block.getD j 0).toUInt32 <<< 24) ||| ((block.getD (j + 1) 0).toUInt32 <<< 16) |||
    ((block.getD (j + 2) 0).toUInt32 <<< 8) ||| (block.getD (j + 3) 0).toUInt32

/-- One more word of the message schedule. -/
def sha1Extend (w : Array UInt32) : Array UInt32 :=
  let i := w.size
  w.push (sha1Rol (w.getD (i - 3) 0 ^^^ w.getD (i - 8) 0 ^^^ w.getD (i - 14) 0 ^^^ w.getD (i - 16) 0) 1)

/-- The function and the constant of round `i`. -/
def sha1Mix (v : Sha1State) (i : ℕ) : UInt32 × UInt32 :=
  if i < 20 then ((v.b &&& v.c) ||| (~~~v.b &&& v.d), 0x5A827999)
  else if i < 40 then (v.b ^^^ v.c ^^^ v.d, 0x6ED9EBA1)
  else if i < 60 then ((v.b &&& v.c) ||| (v.b &&& v.d) ||| (v.c &&& v.d), 0x8F1BBCDC)
  else (v.b ^^^ v.c ^^^ v.d, 0xCA62C1D6)

/-- One round. -/
def sha1Round (w : Array UInt32) (v : Sha1State) (i : ℕ) : Sha1State :=
  let (f, k) := sha1Mix v i
  let t := sha1Rol v.a 5 + f + v.e + k + w.getD i 0
  { a := t, b := v.a, c := sha1Rol v.b 30, d := v.c, e := v.d }

/-- `sha1_transform`. -/
def sha1Transform (s : Sha1State) (block : Bytes) : Sha1State :=
  let w := Nat.repeat sha1Extend 64 ((Array.range 16).map fun i => sha1Word block (4 * i))
  let v := (List.range 80).foldl (sha1Round w) s
  { a := s.a + v.a, b := s.b + v.b, c := s.c + v.c, d := s.d + v.d, e := s.e + v.e }

/-- `sha1_init`. -/
def sha1Init : Sha1Ctx where
  state :=
    { a := 0x67452301, b := 0xEFCDAB89, c := 0x98BADCFE, d := 0x10325476, e := 0xC3D2E1F0 }
  count := 0
  buffer := []

/-- One byte of `sha1_update`. -/
def sha1Push (ctx : Sha1Ctx) (b : UInt8) : Sha1Ctx :=
  let buffer := ctx.buffer ++ [b]
  if buffer.length = 64 then
    { state := sha1Transform ctx.state buffer, count := ctx.count + 1, buffer := [] }
  else { ctx with count := ctx.count + 1, buffer }

/-- `sha1_update`. -/
def sha1Update (ctx : Sha1Ctx) (data : Bytes) : Sha1Ctx := data.foldl sha1Push ctx

/-- `sha1_final`. -/
def sha1Final (ctx : Sha1Ctx) : Bytes :=
  let bits := ctx.count * 8
  let idx := ctx.buffer.length
  let padLen := if idx < 56 then 56 - idx else 120 - idx
  let ctx := sha1Update ctx (0x80 :: List.replicate (padLen - 1) 0)
  let ctx := sha1Update ctx
    (([56, 48, 40, 32, 24, 16, 8, 0] : List UInt64).map fun s => (bits >>> s).toUInt8)
  [ctx.state.a, ctx.state.b, ctx.state.c, ctx.state.d, ctx.state.e].flatMap fun w =>
    ([24, 16, 8, 0] : List UInt32).map fun s => (w >>> s).toUInt8

/-- The blanks that are trimmed behind a key. -/
def isKeyBlank (c : UInt8) : Bool := c = 32 || c = 9 || c = 13 || c = 10

/-- `edge_ws_accept_key` into a buffer of `EDGE_WS_ACCEPT_MAX` bytes. -/
def edgeWsAcceptKey (secWsKey : Bytes) : Option Bytes :=
  let key := (secWsKey.dropWhile fun c => c = 32 || c = 9).rdropWhile isKeyBlank
  if key = [] ∨ key.length ≥ EDGE_WS_KEY_MAX then none
  else
    let dig := sha1Final (sha1Update sha1Init (key ++ bytes "258EAFA5-E914-47DA-95CA-C5AB0DC85B11"))
    b64Encode dig EDGE_WS_ACCEPT_MAX false

/-- `edge_ws_build_101`. -/
def edgeWsBuild101 (secWsKey : Bytes) (outCap : ℕ) : Option Bytes :=
  match edgeWsAcceptKey secWsKey with
  | none => none
  | some accept =>
    let text := bytes "HTTP/1.1 101 Switching Protocols\r\nUpgrade: websocket\r\nConnection: Upgrade\r\n"
      ++ bytes "Sec-WebSocket-Accept: " ++ accept ++ bytes "\r\n\r\n"
    if text.length ≥ outCap then none else some text

/-- `edge_ws_path_is_stream`. -/
def edgeWsPathIsStream (path : Bytes) : Bool :=
  path = bytes "/api/v1/stream" || (bytes "/api/v1/stream?").isPrefixOf path

/-- The handshake of the protocol's own example. -/
example : edgeWsAcceptKey (bytes "dGhlIHNhbXBsZSBub25jZQ==")
    = some (bytes "s3pPLMBiTxaQ9kYGzzhZRbK+xOo=") := by
  decide +kernel

end Edgehost
