/-
  SHA-2/384 and SHA-2/512 (`pcryptohash-sha2-512.c`).
-/
import Plibsys.Crypto.MerkleDamgard

namespace Plibsys

open Bytes

/-- `pp_crypto_hash_sha2_512_K`. -/
def ppCryptoHashSha2_512K : Vector puint64 80 :=
  #v[
    0x428A2F98D728AE22, 0x7137449123EF65CD, 0xB5C0FBCFEC4D3B2F, 0xE9B5DBA58189DBBC, 0x3956C25BF348B538,
    0x59F111F1B605D019, 0x923F82A4AF194F9B, 0xAB1C5ED5DA6D8118, 0xD807AA98A3030242, 0x12835B0145706FBE,
    0x243185BE4EE4B28C, 0x550C7DC3D5FFB4E2, 0x72BE5D74F27B896F, 0x80DEB1FE3B1696B1, 0x9BDC06A725C71235,
    0xC19BF174CF692694, 0xE49B69C19EF14AD2, 0xEFBE4786384F25E3, 0x0FC19DC68B8CD5B5, 0x240CA1CC77AC9C65,
    0x2DE92C6F592B0275, 0x4A7484AA6EA6E483, 0x5CB0A9DCBD41FBD4, 0x76F988DA831153B5, 0x983E5152EE66DFAB,
    0xA831C66D2DB43210, 0xB00327C898FB213F, 0xBF597FC7BEEF0EE4, 0xC6E00BF33DA88FC2, 0xD5A79147930AA725,
    0x06CA6351E003826F, 0x142929670A0E6E70, 0x27B70A8546D22FFC, 0x2E1B21385C26C926, 0x4D2C6DFC5AC42AED,
    0x53380D139D95B3DF, 0x650A73548BAF63DE, 0x766A0ABB3C77B2A8, 0x81C2C92E47EDAEE6, 0x92722C851482353B,
    0xA2BFE8A14CF10364, 0xA81A664BBC423001, 0xC24B8B70D0F89791, 0xC76C51A30654BE30, 0xD192E819D6EF5218,
    0xD69906245565A910, 0xF40E35855771202A, 0x106AA07032BBD1B8, 0x19A4C116B8D2D0C8, 0x1E376C085141AB53,
    0x2748774CDF8EEB99, 0x34B0BCB5E19B48A8, 0x391C0CB3C5C95A63, 0x4ED8AA4AE3418ACB, 0x5B9CCA4F7763E373,
    0x682E6FF3D6B2B8A3, 0x748F82EE5DEFB2FC, 0x78A5636F43172F60, 0x84C87814A1F0AB72, 0x8CC702081A6439EC,
    0x90BEFFFA23631E28, 0xA4506CEBDE82BDE9, 0xBEF9A3F7B2C67915, 0xC67178F2E372532B, 0xCA273ECEEA26619C,
    0xD186B8C721C0C207, 0xEADA7DD6CDE0EB1E, 0xF57D4F7FEE6ED178, 0x06F067AA72176FBA, 0x0A637DC5A2C898A6,
    0x113F9804BEF90DAE, 0x1B710B35131C471B, 0x28DB77F523047D84, 0x32CAAB7B40C72493, 0x3C9EBE0A15C9BEBC,
    0x431D67C49C100D4C, 0x4CC5D4BECB3E42B6, 0x597F299CFC657E2A, 0x5FCB6FAB3AD6FAEC, 0x6C44198C4A475817
  ]

/-- `P_SHA2_512_SHR`. -/
def sha2_512Shr (val : puint64) (shift : ℕ) : puint64 := val >>> shift

/-- `P_SHA2_512_ROTR`. -/
def sha2_512Rotr (val : puint64) (shift : ℕ) : puint64 := sha2_512Shr val shift ||| val <<< (64 - shift)

/-- `P_SHA2_512_S0`. -/
def sha2_512S0 (x : puint64) : puint64 := sha2_512Rotr x 1 ^^^ sha2_512Rotr x 8 ^^^ sha2_512Shr x 7

/-- `P_SHA2_512_S1`. -/
def sha2_512S1 (x : puint64) : puint64 := sha2_512Rotr x 19 ^^^ sha2_512Rotr x 61 ^^^ sha2_512Shr x 6

/-- `P_SHA2_512_S2`. -/
def sha2_512S2 (x : puint64) : puint64 := sha2_512Rotr x 28 ^^^ sha2_512Rotr x 34 ^^^ sha2_512Rotr x 39

/-- `P_SHA2_512_S3`. -/
def sha2_512S3 (x : puint64) : puint64 := sha2_512Rotr x 14 ^^^ sha2_512Rotr x 18 ^^^ sha2_512Rotr x 41

/-- `P_SHA2_512_F0`. -/
def sha2_512F0 (x y z : puint64) : puint64 := (x &&& y) ||| (z &&& (x ||| y))

/-- `P_SHA2_512_F1`. -/
def sha2_512F1 (x y z : puint64) : puint64 := z ^^^ (x &&& (y ^^^ z))

/-- The new values of `d` and `h` in `P_SHA2_512_P`. -/
def sha2_512P (a b c d e f g h x K : puint64) : puint64 × puint64 :=
  let tmp_sum1 := h + sha2_512S3 e + sha2_512F1 e f g + K + x
  let tmp_sum2 := sha2_512S2 a + sha2_512F0 a b c
  (d + tmp_sum1, tmp_sum1 + tmp_sum2)

/-- The body of the loop that expands the schedule. -/
def sha2_512W (W : Vector puint64 80) (i : ℕ) : Vector puint64 80 :=
  W.set! i (sha2_512S1 W[i - 2]! + W[i - 7]! + sha2_512S0 W[i - 15]! + W[i - 16]!)

/-- The body of the loop over the working variables: the rounds `i` to `i + 7`. -/
def sha2_512EightRounds (W : Vector puint64 80) (A : Vector puint64 8) (i : ℕ) : Vector puint64 8 :=
  let K := ppCryptoHashSha2_512K
  let (A0, A1, A2, A3) := (A[0]!, A[1]!, A[2]!, A[3]!)
  let (A4, A5, A6, A7) := (A[4]!, A[5]!, A[6]!, A[7]!)
  let (A3, A7) := sha2_512P A0 A1 A2 A3 A4 A5 A6 A7 W[i]! K[i]!
  let (A2, A6) := sha2_512P A7 A0 A1 A2 A3 A4 A5 A6 W[i + 1]! K[i + 1]!
  let (A1, A5) := sha2_512P A6 A7 A0 A1 A2 A3 A4 A5 W[i + 2]! K[i + 2]!
  let (A0, A4) := sha2_512P A5 A6 A7 A0 A1 A2 A3 A4 W[i + 3]! K[i + 3]!
  let (A7, A3) := sha2_512P A4 A5 A6 A7 A0 A1 A2 A3 W[i + 4]! K[i + 4]!
  let (A6, A2) := sha2_512P A3 A4 A5 A6 A7 A0 A1 A2 W[i + 5]! K[i + 5]!
  let (A5, A1) := sha2_512P A2 A3 A4 A5 A6 A7 A0 A1 W[i + 6]! K[i + 6]!
  let (A4, A0) := sha2_512P A1 A2 A3 A4 A5 A6 A7 A0 W[i + 7]! K[i + 7]!
  #v[A0, A1, A2, A3, A4, A5, A6, A7]

def ppCryptoHashSha2_512Process (hash : Vector puint64 8) (data : Vector puint64 16) : Vector puint64 8 :=
  let W : Vector puint64 80 := (List.range' 16 64).foldl sha2_512W (Vector.ofFn fun i => data.getD i 0)
  let A := (List.range 10).foldl (fun A j => sha2_512EightRounds W A (8 * j)) hash
  Vector.zipWith (· + ·) hash A

def sha2_512Algorithm : MdAlgorithm 64 8 where
  order := .big
  swap := pUint64SwapBytes
  process := ppCryptoHashSha2_512Process
  init
    | false => #v[0x6A09E667F3BCC908, 0xBB67AE8584CAA73B, 0x3C6EF372FE94F82B, 0xA54FF53A5F1D36F1,
        0x510E527FADE682D1, 0x9B05688C2B3E6C1F, 0x1F83D9ABFB41BD6B, 0x5BE0CD19137E2179]
    | true => #v[0xCBBB9D5DC1059ED8, 0x629A292A367CD507, 0x9159015A3070DD17, 0x152FECD8F70E5939,
        0x67332667FFC00B31, 0x8EB44A8768581511, 0xDB0C2E0D64F98FA7, 0x47B5481DBEFA4FA4]
  digestWords
    | false => 8
    | true => 6

section
variable (host : ByteOrder) (ctx : PHashContext 64 8)

def pCryptoHashSha2_512New : PHashContext 64 8 := mdNew sha2_512Algorithm false

def pCryptoHashSha2_384New : PHashContext 64 8 := mdNew sha2_512Algorithm true

def pCryptoHashSha2_512Reset : PHashContext 64 8 := mdReset sha2_512Algorithm ctx

def pCryptoHashSha2_512Update : List UInt8 → Option (PHashContext 64 8) := mdUpdate host sha2_512Algorithm ctx

def pCryptoHashSha2_512Finish : Option (PHashContext 64 8) := mdFinish host sha2_512Algorithm ctx

def pCryptoHashSha2_512Digest : List UInt8 := mdDigest host ctx

end

end Plibsys
