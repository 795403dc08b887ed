/-
  SHA-2/224 and SHA-2/256 (`pcryptohash-sha2-256.c`).
-/
import Plibsys.Crypto.MerkleDamgard

namespace Plibsys

open Bytes

/-- `pp_crypto_hash_sha2_256_K`. -/
def ppCryptoHashSha2_256K : Vector puint32 64 :=
  #v[
    0x428A2F98, 0x71374491, 0xB5C0FBCF, 0xE9B5DBA5, 0x3956C25B, 0x59F111F1, 0x923F82A4, 0xAB1C5ED5,
    0xD807AA98, 0x12835B01, 0x243185BE, 0x550C7DC3, 0x72BE5D74, 0x80DEB1FE, 0x9BDC06A7, 0xC19BF174,
    0xE49B69C1, 0xEFBE4786, 0x0FC19DC6, 0x240CA1CC, 0x2DE92C6F, 0x4A7484AA, 0x5CB0A9DC, 0x76F988DA,
    0x983E5152, 0xA831C66D, 0xB00327C8, 0xBF597FC7, 0xC6E00BF3, 0xD5A79147, 0x06CA6351, 0x14292967,
    0x27B70A85, 0x2E1B2138, 0x4D2C6DFC, 0x53380D13, 0x650A7354, 0x766A0ABB, 0x81C2C92E, 0x92722C85,
    0xA2BFE8A1, 0xA81A664B, 0xC24B8B70, 0xC76C51A3, 0xD192E819, 0xD6990624, 0xF40E3585, 0x106AA070,
    0x19A4C116, 0x1E376C08, 0x2748774C, 0x34B0BCB5, 0x391C0CB3, 0x4ED8AA4A, 0x5B9CCA4F, 0x682E6FF3,
    0x748F82EE, 0x78A5636F, 0x84C87814, 0x8CC70208, 0x90BEFFFA, 0xA4506CEB, 0xBEF9A3F7, 0xC67178F2
  ]

/-- `P_SHA2_256_SHR`. -/
def sha2_256Shr (val : puint32) (shift : ℕ) : puint32 := (val &&& 0xFFFFFFFF) >>> shift

/-- `P_SHA2_256_ROTR`. -/
def sha2_256Rotr (val : puint32) (shift : ℕ) : puint32 := sha2_256Shr val shift ||| val <<< (32 - shift)

/-- `P_SHA2_256_S0`. -/
def sha2_256S0 (x : puint32) : puint32 := sha2_256Rotr x 7 ^^^ sha2_256Rotr x 18 ^^^ sha2_256Shr x 3

/-- `P_SHA2_256_S1`. -/
def sha2_256S1 (x : puint32) : puint32 := sha2_256Rotr x 17 ^^^ sha2_256Rotr x 19 ^^^ sha2_256Shr x 10

/-- `P_SHA2_256_S2`. -/
def sha2_256S2 (x : puint32) : puint32 := sha2_256Rotr x 2 ^^^ sha2_256Rotr x 13 ^^^ sha2_256Rotr x 22

/-- `P_SHA2_256_S3`. -/
def sha2_256S3 (x : puint32) : puint32 := sha2_256Rotr x 6 ^^^ sha2_256Rotr x 11 ^^^ sha2_256Rotr x 25

/-- `P_SHA2_256_F0`. -/
def sha2_256F0 (x y z : puint32) : puint32 := (x &&& y) ||| (z &&& (x ||| y))

/-- `P_SHA2_256_F1`. -/
def sha2_256F1 (x y z : puint32) : puint32 := z ^^^ (x &&& (y ^^^ z))

/-- `P_SHA2_256_R (t)`: the schedule with its word `t`. -/
def sha2_256R (W : Vector puint32 64) (t : ℕ) : Vector puint32 64 :=
  W.set! t (sha2_256S1 W[t - 2]! + W[t - 7]! + sha2_256S0 W[t - 15]! + W[t - 16]!)

/-- The new values of `d` and `h` in `P_SHA2_256_P`. -/
def sha2_256P (a b c d e f g h x K : puint32) : puint32 × puint32 :=
  let tmp_sum1 := h + sha2_256S3 e + sha2_256F1 e f g + K + x
  let tmp_sum2 := sha2_256S2 a + sha2_256F0 a b c
  (d + tmp_sum1, tmp_sum1 + tmp_sum2)

/-- The working variables `A[0]`, ..., `A[7]`, and the schedule. -/
structure Sha2_256State where
  A : Vector puint32 8
  W : Vector puint32 64
  deriving DecidableEq

/-- The body of the two loops: the rounds `i` to `i + 7`; `schedule` is what a round does to the
    schedule before it takes its word. -/
def sha2_256EightRounds (schedule : Vector puint32 64 → ℕ → Vector puint32 64) (s : Sha2_256State) (i : ℕ) :
    Sha2_256State :=
  let K := ppCryptoHashSha2_256K
  let (A0, A1, A2, A3) := (s.A[0]!, s.A[1]!, s.A[2]!, s.A[3]!)
  let (A4, A5, A6, A7) := (s.A[4]!, s.A[5]!, s.A[6]!, s.A[7]!)
  let W := schedule s.W i
  let (A3, A7) := sha2_256P A0 A1 A2 A3 A4 A5 A6 A7 W[i]! K[i]!
  let W := schedule W (i + 1)
  let (A2, A6) := sha2_256P A7 A0 A1 A2 A3 A4 A5 A6 W[i + 1]! K[i + 1]!
  let W := schedule W (i + 2)
  let (A1, A5) := sha2_256P A6 A7 A0 A1 A2 A3 A4 A5 W[i + 2]! K[i + 2]!
  let W := schedule W (i + 3)
  let (A0, A4) := sha2_256P A5 A6 A7 A0 A1 A2 A3 A4 W[i + 3]! K[i + 3]!
  let W := schedule W (i + 4)
  let (A7, A3) := sha2_256P A4 A5 A6 A7 A0 A1 A2 A3 W[i + 4]! K[i + 4]!
  let W := schedule W (i + 5)
  let (A6, A2) := sha2_256P A3 A4 A5 A6 A7 A0 A1 A2 W[i + 5]! K[i + 5]!
  let W := schedule W (i + 6)
  let (A5, A1) := sha2_256P A2 A3 A4 A5 A6 A7 A0 A1 W[i + 6]! K[i + 6]!
  let W := schedule W (i + 7)
  let (A4, A0) := sha2_256P A1 A2 A3 A4 A5 A6 A7 A0 W[i + 7]! K[i + 7]!
  ⟨#v[A0, A1, A2, A3, A4, A5, A6, A7], W⟩

def ppCryptoHashSha2_256Process (hash : Vector puint32 8) (data : Vector puint32 16) : Vector puint32 8 :=
  let s : Sha2_256State := ⟨hash, Vector.ofFn fun i => data.getD i 0⟩
  let s := [0, 8].foldl (sha2_256EightRounds fun W _ => W) s
  let s := [16, 24, 32, 40, 48, 56].foldl (sha2_256EightRounds sha2_256R) s
  Vector.zipWith (· + ·) hash s.A

def sha2_256Algorithm : MdAlgorithm 32 8 where
  order := .big
  swap := pUint32SwapBytes
  process := ppCryptoHashSha2_256Process
  init
    | false => #v[0x6A09E667, 0xBB67AE85, 0x3C6EF372, 0xA54FF53A, 0x510E527F, 0x9B05688C, 0x1F83D9AB, 0x5BE0CD19]
    | true => #v[0xC1059ED8, 0x367CD507, 0x3070DD17, 0xF70E5939, 0xFFC00B31, 0x68581511, 0x64F98FA7, 0xBEFA4FA4]
  digestWords
    | false => 8
    | true => 7

section
variable (host : ByteOrder) (ctx : PHashContext 32 8)

def pCryptoHashSha2_256New : PHashContext 32 8 := mdNew sha2_256Algorithm false

def pCryptoHashSha2_224New : PHashContext 32 8 := mdNew sha2_256Algorithm true

def pCryptoHashSha2_256Reset : PHashContext 32 8 := mdReset sha2_256Algorithm ctx

def pCryptoHashSha2_256Update : List UInt8 → Option (PHashContext 32 8) := mdUpdate host sha2_256Algorithm ctx

def pCryptoHashSha2_256Finish : Option (PHashContext 32 8) := mdFinish host sha2_256Algorithm ctx

def pCryptoHashSha2_256Digest : List UInt8 := mdDigest host ctx

end

end Plibsys
