/-
  MD5 (`pcryptohash-md5.c`).
-/
import Plibsys.Crypto.MerkleDamgard

namespace Plibsys

open Bytes

/-- `P_MD5_ROTL`. -/
def md5Rotl (val : puint32) (shift : ℕ) : puint32 := val <<< shift ||| val >>> (32 - shift)

/-- `P_MD5_F`. -/
def md5F (x y z : puint32) : puint32 := z ^^^ (x &&& (y ^^^ z))

/-- `P_MD5_G`. -/
def md5G (x y z : puint32) : puint32 := md5F z x y

/-- `P_MD5_H`. -/
def md5H (x y z : puint32) : puint32 := x ^^^ y ^^^ z

/-- `P_MD5_I`. -/
def md5I (x y z : puint32) : puint32 := y ^^^ (x ||| ~~~z)

/-- The new value of `a` in `P_MD5_ROUND_0`, ..., `P_MD5_ROUND_3`, which differ in the function `f`. -/
def md5Round (f : puint32 → puint32 → puint32 → puint32) (data : Vector puint32 16) (a b c d : puint32) (k : ℕ)
    (i : puint32) (s : ℕ) : puint32 :=
  md5Rotl (a + (f b c d + data[k]! + i)) s + b

/-- `A`, `B`, `C`, `D`. -/
structure Md5Registers where
  A : puint32
  B : puint32
  C : puint32
  D : puint32
  deriving DecidableEq

/-- Four rounds, with `k` and `i` of each; their shifts are the same in each group of four. -/
def md5FourRounds (f : puint32 → puint32 → puint32 → puint32) (s₀ s₁ s₂ s₃ : ℕ) (data : Vector puint32 16)
    (r : Md5Registers) (k₀ : ℕ) (i₀ : puint32) (k₁ : ℕ) (i₁ : puint32) (k₂ : ℕ) (i₂ : puint32)
    (k₃ : ℕ) (i₃ : puint32) : Md5Registers :=
  let A := md5Round f data r.A r.B r.C r.D k₀ i₀ s₀
  let D := md5Round f data r.D A r.B r.C k₁ i₁ s₁
  let C := md5Round f data r.C D A r.B k₂ i₂ s₂
  let B := md5Round f data r.B C D A k₃ i₃ s₃
  ⟨A, B, C, D⟩

/-! ### The rounds of `pp_crypto_hash_md5_process` -/

section
variable (data : Vector puint32 16) (r : Md5Registers)

def md5FirstRound : Md5Registers :=
  let round0 := md5FourRounds md5F 7 12 17 22 data
  let r := round0 r 0 0xD76AA478 1 0xE8C7B756 2 0x242070DB 3 0xC1BDCEEE
  let r := round0 r 4 0xF57C0FAF 5 0x4787C62A 6 0xA8304613 7 0xFD469501
  let r := round0 r 8 0x698098D8 9 0x8B44F7AF 10 0xFFFF5BB1 11 0x895CD7BE
  round0 r 12 0x6B901122 13 0xFD987193 14 0xA679438E 15 0x49B40821

def md5SecondRound : Md5Registers :=
  let round1 := md5FourRounds md5G 5 9 14 20 data
  let r := round1 r 1 0xF61E2562 6 0xC040B340 11 0x265E5A51 0 0xE9B6C7AA
  let r := round1 r 5 0xD62F105D 10 0x02441453 15 0xD8A1E681 4 0xE7D3FBC8
  let r := round1 r 9 0x21E1CDE6 14 0xC33707D6 3 0xF4D50D87 8 0x455A14ED
  round1 r 13 0xA9E3E905 2 0xFCEFA3F8 7 0x676F02D9 12 0x8D2A4C8A

def md5ThirdRound : Md5Registers :=
  let round2 := md5FourRounds md5H 4 11 16 23 data
  let r := round2 r 5 0xFFFA3942 8 0x8771F681 11 0x6D9D6122 14 0xFDE5380C
  let r := round2 r 1 0xA4BEEA44 4 0x4BDECFA9 7 0xF6BB4B60 10 0xBEBFBC70
  let r := round2 r 13 0x289B7EC6 0 0xEAA127FA 3 0xD4EF3085 6 0x04881D05
  round2 r 9 0xD9D4D039 12 0xE6DB99E5 15 0x1FA27CF8 2 0xC4AC5665

def md5LastRound : Md5Registers :=
  let round3 := md5FourRounds md5I 6 10 15 21 data
  let r := round3 r 0 0xF4292244 7 0x432AFF97 14 0xAB9423A7 5 0xFC93A039
  let r := round3 r 12 0x655B59C3 3 0x8F0CCC92 10 0xFFEFF47D 1 0x85845DD1
  let r := round3 r 8 0x6FA87E4F 15 0xFE2CE6E0 6 0xA3014314 13 0x4E0811A1
  round3 r 4 0xF7537E82 11 0xBD3AF235 2 0x2AD7D2BB 9 0xEB86D391

end

def ppCryptoHashMd5Process (hash : Vector puint32 4) (data : Vector puint32 16) : Vector puint32 4 :=
  let r := md5FirstRound data ⟨hash[0]!, hash[1]!, hash[2]!, hash[3]!⟩
  let r := md5SecondRound data r
  let r := md5ThirdRound data r
  let r := md5LastRound data r
  #v[hash[0]! + r.A, hash[1]! + r.B, hash[2]! + r.C, hash[3]! + r.D]

def md5Algorithm : MdAlgorithm 32 4 where
  order := .little
  swap := pUint32SwapBytes
  process := ppCryptoHashMd5Process
  init _ := #v[0x67452301, 0xEFCDAB89, 0x98BADCFE, 0x10325476]
  digestWords _ := 4

section
variable (host : ByteOrder) (ctx : PHashContext 32 4)

def pCryptoHashMd5New : PHashContext 32 4 := mdNew md5Algorithm false

def pCryptoHashMd5Reset : PHashContext 32 4 := mdReset md5Algorithm ctx

def pCryptoHashMd5Update : List UInt8 → Option (PHashContext 32 4) := mdUpdate host md5Algorithm ctx

def pCryptoHashMd5Finish : Option (PHashContext 32 4) := mdFinish host md5Algorithm ctx

def pCryptoHashMd5Digest : List UInt8 := mdDigest host ctx

end

end Plibsys
