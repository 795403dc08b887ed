/-
  GOST R 34.11-94 (`pcryptohash-gost3411.c`).
-/
import Plibsys.Crypto.MerkleDamgard

namespace Plibsys

open Looping Bytes

/-- `pp_crypto_hash_gost3411_K_block`. -/
def ppCryptoHashGost3411KBlock : Vector (Vector puint32 16) 8 :=
  #v[#v[0x4, 0xA, 0x9, 0x2, 0xD, 0x8, 0x0, 0xE, 0x6, 0xB, 0x1, 0xC, 0x7, 0xF, 0x5, 0x3],
     #v[0xE, 0xB, 0x4, 0xC, 0x6, 0xD, 0xF, 0xA, 0x2, 0x3, 0x8, 0x1, 0x0, 0x7, 0x5, 0x9],
     #v[0x5, 0x8, 0x1, 0xD, 0xA, 0x3, 0x4, 0x2, 0xE, 0xF, 0xC, 0x7, 0x6, 0x0, 0x9, 0xB],
     #v[0x7, 0xD, 0xA, 0x1, 0x0, 0x8, 0x9, 0xF, 0xE, 0x4, 0x6, 0xC, 0xB, 0x2, 0x5, 0x3],
     #v[0x6, 0xC, 0x7, 0x1, 0x5, 0xF, 0xD, 0x8, 0x4, 0xA, 0x9, 0xE, 0x0, 0x3, 0xB, 0x2],
     #v[0x4, 0xB, 0xA, 0x0, 0x7, 0x2, 0x1, 0xD, 0x3, 0x6, 0x8, 0x5, 0x9, 0xC, 0xF, 0xE],
     #v[0xD, 0xB, 0x4, 0x1, 0x3, 0xF, 0x5, 0x9, 0x0, 0xA, 0xE, 0x7, 0x6, 0x8, 0x2, 0xC],
     #v[0x1, 0xF, 0xD, 0x0, 0x5, 0x7, 0xA, 0x4, 0x9, 0x2, 0x3, 0xE, 0x6, 0xB, 0x8, 0xC]]

/-! ## GOST 28147-89 -/

/-- `K_block[i][CM1 >> 4 * i & 0xF] << 4 * i`. -/
def gost28147Substitute (CM1 : puint32) (i : ℕ) : puint32 :=
  (ppCryptoHashGost3411KBlock[i]!)[(CM1 >>> (4 * i) &&& 0xF).toNat]! <<< (4 * i)

/-- `P_GOST_28147_ROUND`. -/
def gost28147Round (N : puint32 × puint32) (key : puint32) : puint32 × puint32 :=
  let CM1 := N.1 + key
  let CM1 := gost28147Substitute CM1 0 ||| gost28147Substitute CM1 1 ||| gost28147Substitute CM1 2 |||
    gost28147Substitute CM1 3 ||| gost28147Substitute CM1 4 ||| gost28147Substitute CM1 5 |||
    gost28147Substitute CM1 6 ||| gost28147Substitute CM1 7
  let CM1 := (CM1 <<< 11 ||| CM1 >>> 21) ^^^ N.2
  (CM1, N.1)

/-- `P_GOST_28147_E`. -/
def gost28147E (data : puint32 × puint32) (key : Vector puint32 8) : puint32 × puint32 :=
  let keys := key.toList
  let N := (keys ++ keys ++ keys ++ keys.reverse).foldl gost28147Round data
  (N.2, N.1)

/-! ## The step hash function -/

/-- `P_GOST_3411_P`. -/
def gost3411P (data : Vector puint32 8) : Vector puint32 8 :=
  #v[(data[0] &&& 0x000000FF) ||| ((data[2] <<< 8) &&& 0x0000FF00) ||| ((data[4] <<< 16) &&& 0x00FF0000) |||
       ((data[6] <<< 24) &&& 0xFF000000),
     ((data[0] >>> 8) &&& 0x000000FF) ||| (data[2] &&& 0x0000FF00) ||| ((data[4] <<< 8) &&& 0x00FF0000) |||
       ((data[6] <<< 16) &&& 0xFF000000),
     ((data[0] >>> 16) &&& 0x000000FF) ||| ((data[2] >>> 8) &&& 0x0000FF00) ||| (data[4] &&& 0x00FF0000) |||
       ((data[6] <<< 8) &&& 0xFF000000),
     ((data[0] >>> 24) &&& 0x000000FF) ||| ((data[2] >>> 16) &&& 0x0000FF00) ||| ((data[4] >>> 8) &&&
       0x00FF0000) ||| (data[6] &&& 0xFF000000),
     (data[1] &&& 0x000000FF) ||| ((data[3] <<< 8) &&& 0x0000FF00) ||| ((data[5] <<< 16) &&& 0x00FF0000) |||
       ((data[7] <<< 24) &&& 0xFF000000),
     ((data[1] >>> 8) &&& 0x000000FF) ||| (data[3] &&& 0x0000FF00) ||| ((data[5] <<< 8) &&& 0x00FF0000) |||
       ((data[7] <<< 16) &&& 0xFF000000),
     ((data[1] >>> 16) &&& 0x000000FF) ||| ((data[3] >>> 8) &&& 0x0000FF00) ||| (data[5] &&& 0x00FF0000) |||
       ((data[7] <<< 8) &&& 0xFF000000),
     ((data[1] >>> 24) &&& 0x000000FF) ||| ((data[3] >>> 16) &&& 0x0000FF00) ||| ((data[5] >>> 8) &&&
       0x00FF0000) ||| (data[7] &&& 0xFF000000)]

/-- The four keys: `K[0]` to `K[3]` of `pp_crypto_hash_gost3411_process`. -/
def gost3411Keys (hash data : Vector puint32 8) : Vector (Vector puint32 8) 4 :=
  let (U0, U1, U2, U3, U4, U5, U6, U7) :=
    (hash[0], hash[1], hash[2], hash[3], hash[4], hash[5], hash[6], hash[7])
  let (V0, V1, V2, V3, V4, V5, V6, V7) :=
    (data[0], data[1], data[2], data[3], data[4], data[5], data[6], data[7])
  -- P (U xor V)
  let K0 := gost3411P #v[U0 ^^^ V0, U1 ^^^ V1, U2 ^^^ V2, U3 ^^^ V3, U4 ^^^ V4, U5 ^^^ V5, U6 ^^^ V6, U7 ^^^ V7]
  -- P (A (U) xor A^2 (V))
  let (W0, W1, W2, W3) := (U2 ^^^ V4, U3 ^^^ V5, U4 ^^^ V6, U5 ^^^ V7)
  let V0 := V0 ^^^ V2
  let W4 := U6 ^^^ V0
  let V1 := V1 ^^^ V3
  let W5 := U7 ^^^ V1
  let U0 := U0 ^^^ U2
  let V2 := V2 ^^^ V4
  let W6 := U0 ^^^ V2
  let U1 := U1 ^^^ U3
  let V3 := V3 ^^^ V5
  let W7 := U1 ^^^ V3
  let K1 := gost3411P #v[W0, W1, W2, W3, W4, W5, W6, W7]
  -- P ((A^2 (U) + C3) xor A^4 (V))
  let U2 := U2 ^^^ (U4 ^^^ 0x000000FF)
  let U3 := U3 ^^^ (U5 ^^^ 0xFF00FFFF)
  let U4 := U4 ^^^ 0xFF00FF00
  let U5 := U5 ^^^ 0xFF00FF00
  let U6 := U6 ^^^ 0x00FF00FF
  let U7 := U7 ^^^ 0x00FF00FF
  let U0 := U0 ^^^ 0x00FFFF00
  let U1 := U1 ^^^ 0xFF0000FF
  let (W0, W2) := (U4 ^^^ V0, U6 ^^^ V2)
  let V4 := V4 ^^^ V6
  let W4 := U0 ^^^ V4
  let V6 := V6 ^^^ V0
  let W6 := U2 ^^^ V6
  let (W1, W3) := (U5 ^^^ V1, U7 ^^^ V3)
  let V5 := V5 ^^^ V7
  let W5 := U1 ^^^ V5
  let V7 := V7 ^^^ V1
  let W7 := U3 ^^^ V7
  let K2 := gost3411P #v[W0, W1, W2, W3, W4, W5, W6, W7]
  -- P (A (A^2 (U) xor C3) xor A^6 (V))
  let (W0, W1, W2, W3) := (U6 ^^^ V4, U7 ^^^ V5, U0 ^^^ V6, U1 ^^^ V7)
  let V0 := V0 ^^^ V2
  let W4 := U2 ^^^ V0
  let V1 := V1 ^^^ V3
  let W5 := U3 ^^^ V1
  let U4 := U4 ^^^ U6
  let V2 := V2 ^^^ V4
  let W6 := U4 ^^^ V2
  let U5 := U5 ^^^ U7
  let V3 := V3 ^^^ V5
  let W7 := U5 ^^^ V3
  let K3 := gost3411P #v[W0, W1, W2, W3, W4, W5, W6, W7]
  #v[K0, K1, K2, K3]

/-- `S`: the four parts of the hash value under the four keys. -/
def gost3411Encrypt (hash : Vector puint32 8) (K : Vector (Vector puint32 8) 4) : Vector puint32 8 :=
  let (S0, S1) := gost28147E (hash[0], hash[1]) K[0]
  let (S2, S3) := gost28147E (hash[2], hash[3]) K[1]
  let (S4, S5) := gost28147E (hash[4], hash[5]) K[2]
  let (S6, S7) := gost28147E (hash[6], hash[7]) K[3]
  #v[S0, S1, S2, S3, S4, S5, S6, S7]

/-- 12 rounds of the shift register, and the block. -/
def gost3411Psi12 (data S : Vector puint32 8) : Vector puint32 8 :=
  #v[data[0] ^^^ S[6],
     data[1] ^^^ S[7],
     data[2] ^^^ (S[0] &&& 0x0000FFFF) ^^^ (S[0] >>> 16) ^^^ (S[0] <<< 16) ^^^ (S[1] &&& 0x0000FFFF) ^^^ (S[1]
       >>> 16) ^^^ (S[2] <<< 16) ^^^ (S[7] &&& 0xFFFF0000) ^^^ (S[6] <<< 16) ^^^ (S[7] >>> 16) ^^^ S[6],
     data[3] ^^^ (S[0] &&& 0x0000FFFF) ^^^ (S[0] <<< 16) ^^^ (S[2] <<< 16) ^^^ (S[1] &&& 0x0000FFFF) ^^^ (S[1]
       <<< 16) ^^^ (S[1] >>> 16) ^^^ (S[7] &&& 0x0000FFFF) ^^^ (S[2] >>> 16) ^^^ (S[3] <<< 16) ^^^ (S[6] <<<
       16) ^^^ (S[6] >>> 16) ^^^ (S[7] <<< 16) ^^^ (S[7] >>> 16) ^^^ S[6],
     data[4] ^^^ (S[0] &&& 0xFFFF0000) ^^^ (S[0] <<< 16) ^^^ (S[0] >>> 16) ^^^ (S[1] &&& 0xFFFF0000) ^^^ (S[1]
       >>> 16) ^^^ (S[2] <<< 16) ^^^ (S[7] &&& 0x0000FFFF) ^^^ (S[3] <<< 16) ^^^ (S[3] >>> 16) ^^^ (S[4] <<<
       16) ^^^ (S[6] <<< 16) ^^^ (S[6] >>> 16) ^^^ (S[2] >>> 16) ^^^ (S[7] <<< 16) ^^^ (S[7] >>> 16),
     data[5] ^^^ (S[0] &&& 0xFFFF0000) ^^^ (S[0] >>> 16) ^^^ (S[0] <<< 16) ^^^ (S[1] &&& 0x0000FFFF) ^^^ (S[7]
       >>> 16) ^^^ (S[2] >>> 16) ^^^ (S[7] &&& 0xFFFF0000) ^^^ (S[3] >>> 16) ^^^ (S[4] <<< 16) ^^^ (S[4] >>>
       16) ^^^ (S[5] <<< 16) ^^^ (S[6] <<< 16) ^^^ (S[6] >>> 16) ^^^ (S[3] <<< 16) ^^^ (S[7] <<< 16) ^^^ S[2],
     data[6] ^^^ (S[4] >>> 16) ^^^ (S[1] >>> 16) ^^^ (S[2] <<< 16) ^^^ (S[7] <<< 16) ^^^ (S[3] >>> 16) ^^^
       (S[4] <<< 16) ^^^ (S[5] <<< 16) ^^^ (S[5] >>> 16) ^^^ (S[6] <<< 16) ^^^ (S[6] >>> 16) ^^^ S[6] ^^^ S[0]
       ^^^ S[3],
     data[7] ^^^ (S[0] &&& 0xFFFF0000) ^^^ (S[0] <<< 16) ^^^ (S[1] <<< 16) ^^^ (S[1] &&& 0x0000FFFF) ^^^ (S[2]
       >>> 16) ^^^ (S[3] <<< 16) ^^^ (S[7] &&& 0x0000FFFF) ^^^ (S[4] >>> 16) ^^^ (S[5] <<< 16) ^^^ (S[5] >>>
       16) ^^^ (S[6] >>> 16) ^^^ (S[7] <<< 16) ^^^ (S[7] >>> 16) ^^^ S[4]]

/-- 1 round of the shift register, and the last hash value. -/
def gost3411Psi1 (hash U : Vector puint32 8) : Vector puint32 8 :=
  #v[hash[0] ^^^ (U[1] <<< 16) ^^^ (U[0] >>> 16),
     hash[1] ^^^ (U[2] <<< 16) ^^^ (U[1] >>> 16),
     hash[2] ^^^ (U[3] <<< 16) ^^^ (U[2] >>> 16),
     hash[3] ^^^ (U[4] <<< 16) ^^^ (U[3] >>> 16),
     hash[4] ^^^ (U[5] <<< 16) ^^^ (U[4] >>> 16),
     hash[5] ^^^ (U[6] <<< 16) ^^^ (U[5] >>> 16),
     hash[6] ^^^ (U[7] <<< 16) ^^^ (U[6] >>> 16),
     hash[7] ^^^ (U[7] >>> 16) ^^^ (U[0] <<< 16) ^^^ (U[1] &&& 0xFFFF0000) ^^^ (U[1] <<< 16) ^^^ (U[7] &&&
       0xFFFF0000) ^^^ (U[6] <<< 16) ^^^ (U[0] &&& 0xFFFF0000)]

/-- The final 61 rounds of the shift register. -/
def gost3411Psi61 (V : Vector puint32 8) : Vector puint32 8 :=
  #v[(V[0] &&& 0xFFFF0000) ^^^ (V[0] <<< 16) ^^^ (V[0] >>> 16) ^^^ (V[1] &&& 0xFFFF0000) ^^^ (V[1] >>> 16) ^^^
       (V[2] <<< 16) ^^^ (V[7] &&& 0x0000FFFF) ^^^ (V[3] >>> 16) ^^^ (V[4] <<< 16) ^^^ (V[5] >>> 16) ^^^ (V[6]
       >>> 16) ^^^ (V[7] <<< 16) ^^^ (V[7] >>> 16) ^^^ V[5],
     (V[0] &&& 0xFFFF0000) ^^^ (V[0] <<< 16) ^^^ (V[0] >>> 16) ^^^ (V[1] &&& 0x0000FFFF) ^^^ (V[2] >>> 16) ^^^
       (V[3] <<< 16) ^^^ (V[7] &&& 0xFFFF0000) ^^^ (V[4] >>> 16) ^^^ (V[5] <<< 16) ^^^ (V[6] <<< 16) ^^^ (V[7]
       >>> 16) ^^^ V[6] ^^^ V[2],
     (V[0] &&& 0x0000FFFF) ^^^ (V[0] <<< 16) ^^^ (V[1] <<< 16) ^^^ (V[7] &&& 0x0000FFFF) ^^^ (V[1] >>> 16) ^^^
       (V[2] <<< 16) ^^^ (V[1] &&& 0xFFFF0000) ^^^ (V[3] >>> 16) ^^^ (V[4] <<< 16) ^^^ (V[5] >>> 16) ^^^ (V[6]
       >>> 16) ^^^ (V[7] <<< 16) ^^^ (V[7] >>> 16) ^^^ V[3] ^^^ V[6],
     (V[0] &&& 0xFFFF0000) ^^^ (V[0] <<< 16) ^^^ (V[0] >>> 16) ^^^ (V[1] &&& 0xFFFF0000) ^^^ (V[1] >>> 16) ^^^
       (V[2] <<< 16) ^^^ (V[7] &&& 0x0000FFFF) ^^^ (V[2] >>> 16) ^^^ (V[3] <<< 16) ^^^ (V[4] >>> 16) ^^^ (V[5]
       <<< 16) ^^^ (V[6] <<< 16) ^^^ (V[7] >>> 16) ^^^ V[2] ^^^ V[4],
     (V[0] >>> 16) ^^^ (V[1] <<< 16) ^^^ (V[2] >>> 16) ^^^ (V[3] <<< 16) ^^^ (V[3] >>> 16) ^^^ (V[4] <<< 16)
       ^^^ (V[5] >>> 16) ^^^ (V[6] <<< 16) ^^^ (V[6] >>> 16) ^^^ (V[7] <<< 16) ^^^ V[1] ^^^ V[2] ^^^ V[3] ^^^
       V[5],
     (V[0] &&& 0xFFFF0000) ^^^ (V[0] <<< 16) ^^^ (V[1] <<< 16) ^^^ (V[1] &&& 0xFFFF0000) ^^^ (V[1] >>> 16) ^^^
       (V[2] <<< 16) ^^^ (V[7] &&& 0xFFFF0000) ^^^ (V[3] >>> 16) ^^^ (V[4] <<< 16) ^^^ (V[4] >>> 16) ^^^ (V[5]
       <<< 16) ^^^ (V[6] <<< 16) ^^^ (V[6] >>> 16) ^^^ (V[7] <<< 16) ^^^ (V[7] >>> 16) ^^^ V[2] ^^^ V[3] ^^^
       V[4] ^^^ V[6],
     (V[2] >>> 16) ^^^ (V[3] <<< 16) ^^^ (V[4] >>> 16) ^^^ (V[5] <<< 16) ^^^ (V[5] >>> 16) ^^^ (V[6] <<< 16)
       ^^^ (V[6] >>> 16) ^^^ (V[7] <<< 16) ^^^ V[7] ^^^ V[0] ^^^ V[2] ^^^ V[3] ^^^ V[4] ^^^ V[5] ^^^ V[6],
     (V[0] >>> 16) ^^^ (V[1] <<< 16) ^^^ (V[1] >>> 16) ^^^ (V[2] <<< 16) ^^^ (V[3] >>> 16) ^^^ (V[4] <<< 16)
       ^^^ (V[5] >>> 16) ^^^ (V[6] <<< 16) ^^^ (V[6] >>> 16) ^^^ (V[7] <<< 16) ^^^ V[7] ^^^ V[0] ^^^ V[3] ^^^
       V[4] ^^^ V[5]]

def ppCryptoHashGost3411Process (hash data : Vector puint32 8) : Vector puint32 8 :=
  let S := gost3411Encrypt hash (gost3411Keys hash data)
  let U := gost3411Psi12 data S
  let V := gost3411Psi1 hash U
  gost3411Psi61 V

/-! ## The context -/

/-- `PHashGOST3411`. -/
structure PHashGOST3411 where
  buf : List UInt8
  hash : Vector puint32 8
  len : Vector puint32 8
  sum : Vector puint32 8

/-- One word of `pp_crypto_hash_gost3411_sum_256`: the sum so far, and `carry`. -/
def gost3411SumStep (b : Vector puint32 8) (s : Vector puint32 8 × Bool) (i : Fin 8) : Vector puint32 8 × Bool :=
  let (a, carry) := s
  let old := a[i]
  let sum := a[i] + b[i] + if carry then 1 else 0
  (a.set i sum, sum < old || sum < b[i])

def ppCryptoHashGost3411Sum256 (a b : Vector puint32 8) : Vector puint32 8 :=
  ((List.finRange 8).foldl (gost3411SumStep b) (a, false)).1

section
variable (host : ByteOrder)

/-- `pp_crypto_hash_gost3411_swap_bytes (data, 8)`. -/
def ppCryptoHashGost3411SwapBytes (data : Vector puint32 8) : Vector puint32 8 :=
  if host = .big then data.map pUint32SwapBytes else data

/-- The words of the buffer, as the host reads them. -/
def gost3411Words (o : ByteOrder) (buf : List UInt8) : Vector puint32 8 :=
  Vector.ofFn fun i : Fin 8 => word o 32 ((buf.drop (4 * i.val)).take 4)

/-- `swap_bytes (buf, 8)`, `process (ctx, buf)` and `sum_256 (sum, buf)`. -/
def gost3411ProcessBuffer (ctx : PHashGOST3411) : PHashGOST3411 :=
  let data := ppCryptoHashGost3411SwapBytes host (gost3411Words host ctx.buf)
  { ctx with
    buf := hostBytes host data
    hash := ppCryptoHashGost3411Process ctx.hash data
    sum := ppCryptoHashGost3411Sum256 ctx.sum data }

def pCryptoHashGost3411Reset (_ctx : PHashGOST3411) : PHashGOST3411 :=
  ⟨List.replicate 32 0, Vector.replicate 8 0, Vector.replicate 8 0, Vector.replicate 8 0⟩

def pCryptoHashGost3411New : PHashGOST3411 :=
  pCryptoHashGost3411Reset ⟨List.replicate 32 0, Vector.replicate 8 0, Vector.replicate 8 0, Vector.replicate 8 0⟩

/-- The loop of `p_crypto_hash_gost3411_update` over the full blocks. -/
def gost3411UpdateStep (data : List UInt8) : StateT PHashGOST3411 Option (Iter (List UInt8) (List UInt8)) :=
  fun ctx =>
  if data.length ≥ 32 then do
    let buf ← memcpyAt ctx.buf 0 (data.take 32)
    return (.next (data.drop 32), gost3411ProcessBuffer host { ctx with buf := buf })
  else
    return (.done data, ctx)

def pCryptoHashGost3411Update (ctx : PHashGOST3411) (data : List UInt8) : Option PHashGOST3411 := do
  let len : puint64 := BitVec.ofNat 64 data.length
  let left := ((ctx.len[0]! &&& 0xFF) >>> 3).toNat
  let to_fill := 32 - left
  let len256 : Vector puint32 8 := #v[(len <<< 3).setWidth 32, (len >>> 29).setWidth 32, 0, 0, 0, 0, 0, 0]
  let ctx := { ctx with len := ppCryptoHashGost3411Sum256 ctx.len len256 }
  let (ctx, data, left) ←
    if left ≠ 0 ∧ (len.setWidth 32).toNat ≥ to_fill then do
      let buf ← memcpyAt ctx.buf left (data.take to_fill)
      pure (gost3411ProcessBuffer host { ctx with buf := buf }, data.drop to_fill, 0)
    else
      pure (ctx, data, left)
  let (data, ctx) ← (loop (gost3411UpdateStep host) (data.length + 1) data).run ctx
  if data.length > 0 then
    let buf ← memcpyAt ctx.buf left data
    return { ctx with buf := buf }
  else
    return ctx

def pCryptoHashGost3411Finish (ctx : PHashGOST3411) : Option PHashGOST3411 := do
  let left := (ctx.len[0]! &&& 0xFF).toNat
  let last := 32 - left / 8
  let ctx ←
    if last % 32 ≠ 0 then do
      let buf ← memcpyAt ctx.buf (left / 8) (List.replicate last 0)
      pure (gost3411ProcessBuffer host { ctx with buf := buf })
    else
      pure ctx
  let hash := ppCryptoHashGost3411Process ctx.hash ctx.len
  let hash := ppCryptoHashGost3411Process hash ctx.sum
  return { ctx with hash := ppCryptoHashGost3411SwapBytes host hash }

def pCryptoHashGost3411Digest (ctx : PHashGOST3411) : List UInt8 := hostBytes host ctx.hash

end

end Plibsys
