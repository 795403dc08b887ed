/-
  What the contexts of MD5, SHA-1 and SHA-2 have in common (`pcryptohash-md5.c`,
  `pcryptohash-sha1.c`, `pcryptohash-sha2-256.c`, `pcryptohash-sha2-512.c`).

  The functions of the four files differ in the width `w` of a word, the number `n` of words
  of a hash value, the order of the bytes and the block function; these are the fields of
  `MdAlgorithm`.  A block has 16 words, that is `2 * w` bytes.  The buffer is kept as bytes
  and read as words in the byte order of the host.
-/
import Plibsys.Lib.Bytes
import Plibsys.Lib.Loop
import Plibsys.Types

namespace Plibsys

open Looping Bytes

/-! ## Byte order -/

/-- `PUINT32_SWAP_BYTES`. -/
def pUint32SwapBytes (val : puint32) : puint32 :=
  val >>> 24 ||| (val <<< 8 &&& 0x00FF0000) ||| (val >>> 8 &&& 0x0000FF00) ||| val <<< 24

/-- `PUINT64_SWAP_BYTES`. -/
def pUint64SwapBytes (val : puint64) : puint64 :=
  val >>> 56 ||| (val <<< 40 &&& 0x00FF000000000000) ||| (val <<< 24 &&& 0x0000FF0000000000) |||
    (val <<< 8 &&& 0x000000FF00000000) ||| (val >>> 8 &&& 0x00000000FF000000) |||
    (val >>> 24 &&& 0x0000000000FF0000) ||| (val >>> 40 &&& 0x000000000000FF00) ||| val <<< 56

/-- `memcpy` of `src` to position `pos` of a buffer; it fails beyond the end of the buffer. -/
def memcpyAt (buf : List UInt8) (pos : ℕ) (src : List UInt8) : Option (List UInt8) :=
  if pos + src.length ≤ buf.length then some (buf.take pos ++ src ++ buf.drop (pos + src.length)) else none

/-! ## Contexts -/

/-- `PHashMD5`, `PHashSHA1`, `PHashSHA2_256` or `PHashSHA2_512`; `flag` is `is224` or `is384`. -/
structure PHashContext (w n : ℕ) where
  buf : List UInt8
  hash : Vector (BitVec w) n
  len_high : BitVec w
  len_low : BitVec w
  flag : Bool

/-- What one of the four files does in its own way. -/
structure MdAlgorithm (w n : ℕ) where
  /-- the byte order that `swap_bytes` converts to -/
  order : ByteOrder
  /-- `PUINT32_SWAP_BYTES` or `PUINT64_SWAP_BYTES` -/
  swap : BitVec w → BitVec w
  /-- the block function: the words that it leaves in `ctx->hash` -/
  process : Vector (BitVec w) n → Vector (BitVec w) 16 → Vector (BitVec w) n
  /-- the initial hash value, by `flag` -/
  init : Bool → Vector (BitVec w) n
  /-- the number of words of `ctx->hash` that are swapped at the end, by `flag` -/
  digestWords : Bool → ℕ

section
variable {w n : ℕ} (host : ByteOrder) (alg : MdAlgorithm w n)

/-- The words of a buffer, as the host reads them. -/
def hostWords (o : ByteOrder) (buf : List UInt8) : Vector (BitVec w) 16 :=
  Vector.ofFn fun i : Fin 16 => word o w ((buf.drop (w / 8 * i)).take (w / 8))

/-- The bytes of words, as the host stores them. -/
def hostBytes {m : ℕ} (o : ByteOrder) (ws : Vector (BitVec w) m) : List UInt8 := ws.toList.flatMap (bytes o)

/-- `pp_crypto_hash_*_swap_bytes (data, words)`. -/
def mdSwapBytes {m : ℕ} (data : Vector (BitVec w) m) (words : ℕ) : Vector (BitVec w) m :=
  data.mapIdx fun i val => if i < words ∧ host ≠ alg.order then alg.swap val else val

/-- `swap_bytes (buf_w, 16)` and `process (ctx, buf_w)`. -/
def mdProcessBuffer (ctx : PHashContext w n) : PHashContext w n :=
  let data := mdSwapBytes host alg (hostWords host ctx.buf) 16
  { ctx with buf := hostBytes host data, hash := alg.process ctx.hash data }

/-- The loop of `p_crypto_hash_*_update` over the full blocks; its state is the rest of the data. -/
def mdUpdateStep (data : List UInt8) : StateT (PHashContext w n) Option (Iter (List UInt8) (List UInt8)) :=
  fun ctx =>
  if data.length ≥ 2 * w then do
    let buf ← memcpyAt ctx.buf 0 (data.take (2 * w))
    return (.next (data.drop (2 * w)), mdProcessBuffer host alg { ctx with buf := buf })
  else
    return (.done data, ctx)

/-- `p_crypto_hash_*_update (ctx, data, len)` for the `len` bytes at `data`. -/
def mdUpdate (ctx : PHashContext w n) (data : List UInt8) : Option (PHashContext w n) := do
  let len := BitVec.ofNat w data.length
  let left := (ctx.len_low &&& BitVec.ofNat w (2 * w - 1)).toNat
  let to_fill := 2 * w - left
  let len_low := ctx.len_low + len
  let len_high := if len_low < len then ctx.len_high + 1 else ctx.len_high
  let ctx := { ctx with len_low := len_low, len_high := len_high }
  let (ctx, data, left) ←
    if left ≠ 0 ∧ len.toNat ≥ to_fill then do
      let buf ← memcpyAt ctx.buf left (data.take to_fill)
      pure (mdProcessBuffer host alg { ctx with buf := buf }, data.drop to_fill, 0)
    else
      pure (ctx, data, left)
  let (data, ctx) ← (loop (mdUpdateStep host alg) (data.length + 1) data).run ctx
  if data.length > 0 then
    let buf ← memcpyAt ctx.buf left data
    return { ctx with buf := buf }
  else
    return ctx

/-- The 16 words of the last block: the message up to the length, and the length. -/
def mdLengthBlock (high low : BitVec w) (buf : List UInt8) : Vector (BitVec w) 16 :=
  match alg.order with
  | .little => ((hostWords host buf).set! 14 low).set! 15 high
  | .big => ((hostWords host buf).set! 14 high).set! 15 low

/-- `p_crypto_hash_*_finish`. -/
def mdFinish (ctx : PHashContext w n) : Option (PHashContext w n) := do
  let pad : List UInt8 := 0x80 :: List.replicate (2 * w - 1) 0
  let left := (ctx.len_low &&& BitVec.ofNat w (2 * w - 1)).toNat
  let last := if left < 14 * (w / 8) then 14 * (w / 8) - left else 30 * (w / 8) - left
  let low := ctx.len_low <<< 3
  let high := ctx.len_high <<< 3 ||| ctx.len_low >>> (w - 3)
  let ctx ← if last > 0 then mdUpdate host alg ctx (pad.take last) else pure ctx
  let data := mdSwapBytes host alg (mdLengthBlock host alg high low ctx.buf) 14
  let hash := alg.process ctx.hash data
  return { ctx with buf := hostBytes host data, hash := mdSwapBytes host alg hash (alg.digestWords ctx.flag) }

/-- `p_crypto_hash_*_reset`. -/
def mdReset (ctx : PHashContext w n) : PHashContext w n :=
  { buf := List.replicate (2 * w) 0, hash := alg.init ctx.flag, len_high := 0, len_low := 0, flag := ctx.flag }

/-- `p_crypto_hash_*_new`: a zeroed context with its flag, reset. -/
def mdNew (flag : Bool) : PHashContext w n :=
  mdReset alg ⟨List.replicate (2 * w) 0, Vector.replicate n 0, 0, 0, flag⟩

/-- `p_crypto_hash_*_digest`: the memory of `ctx->hash`. -/
def mdDigest (ctx : PHashContext w n) : List UInt8 := hostBytes host ctx.hash

end

end Plibsys
