/-
  SHA-1 (`pcryptohash-sha1.c`).
-/
import Plibsys.Crypto.MerkleDamgard

namespace Plibsys

open Bytes

/-- `P_SHA1_ROTL`. -/
def sha1Rotl (val : puint32) (shift : ℕ) : puint32 := val <<< shift ||| val >>> (32 - shift)

/-- `P_SHA1_F1`. -/
def sha1F1 (x y z : puint32) : puint32 := (x &&& y) ||| (~~~x &&& z)

/-- `P_SHA1_F2`. -/
def sha1F2 (x y z : puint32) : puint32 := x ^^^ y ^^^ z

/-- `P_SHA1_F3`. -/
def sha1F3 (x y z : puint32) : puint32 := (x &&& y) ||| (x &&& z) ||| (y &&& z)

/-- The registers and the circular schedule. -/
structure Sha1State where
  A : puint32
  B : puint32
  C : puint32
  D : puint32
  E : puint32
  W : Vector puint32 16
  deriving DecidableEq

/-- `P_SHA1_W (W, i)`: the new schedule word, which is also stored. -/
def sha1W (W : Vector puint32 16) (i : ℕ) : Vector puint32 16 :=
  let word := sha1Rotl (W[(i - 3) % 16]! ^^^ W[(i - 8) % 16]! ^^^ W[(i - 14) % 16]! ^^^ W[(i - 16) % 16]!) 1
  W.set! (i % 16) word

/-- The schedule when round `i` uses it: the first 16 rounds take the words of the block. -/
def sha1Schedule (W : Vector puint32 16) (i : ℕ) : Vector puint32 16 := if i < 16 then W else sha1W W i

/-- The new values of `e` and `b` in `P_SHA1_ROUND_0`, ..., `P_SHA1_ROUND_3`, which differ in the
    function `f` and the constant `k`. -/
def sha1Round (f : puint32 → puint32 → puint32 → puint32) (k a b c d e w : puint32) : puint32 × puint32 :=
  (e + (sha1Rotl a 5 + f b c d + k + w), sha1Rotl b 30)

/-- The rounds `i` to `i + 4`, after which the registers have their names back. -/
def sha1FiveRounds (f : puint32 → puint32 → puint32 → puint32) (k : puint32) (s : Sha1State) (i : ℕ) : Sha1State :=
  let ⟨A, B, C, D, E, W⟩ := s
  let W := sha1Schedule W i
  let (E, B) := sha1Round f k A B C D E W[i % 16]!
  let W := sha1Schedule W (i + 1)
  let (D, A) := sha1Round f k E A B C D W[(i + 1) % 16]!
  let W := sha1Schedule W (i + 2)
  let (C, E) := sha1Round f k D E A B C W[(i + 2) % 16]!
  let W := sha1Schedule W (i + 3)
  let (B, D) := sha1Round f k C D E A B W[(i + 3) % 16]!
  let W := sha1Schedule W (i + 4)
  let (A, C) := sha1Round f k B C D E A W[(i + 4) % 16]!
  ⟨A, B, C, D, E, W⟩

def ppCryptoHashSha1Process (hash : Vector puint32 5) (data : Vector puint32 16) : Vector puint32 5 :=
  let round0 := sha1FiveRounds sha1F1 0x5A827999
  let round1 := sha1FiveRounds sha1F2 0x6ED9EBA1
  let round2 := sha1FiveRounds sha1F3 0x8F1BBCDC
  let round3 := sha1FiveRounds sha1F2 0xCA62C1D6
  let s : Sha1State := ⟨hash[0]!, hash[1]!, hash[2]!, hash[3]!, hash[4]!, data⟩
  let s := round0 s 0
  let s := round0 s 5
  let s := round0 s 10
  let s := round0 s 15
  let s := round1 s 20
  let s := round1 s 25
  let s := round1 s 30
  let s := round1 s 35
  let s := round2 s 40
  let s := round2 s 45
  let s := round2 s 50
  let s := round2 s 55
  let s := round3 s 60
  let s := round3 s 65
  let s := round3 s 70
  let s := round3 s 75
  #v[hash[0]! + s.A, hash[1]! + s.B, hash[2]! + s.C, hash[3]! + s.D, hash[4]! + s.E]

def sha1Algorithm : MdAlgorithm 32 5 where
  order := .big
  swap := pUint32SwapBytes
  process := ppCryptoHashSha1Process
  init _ := #v[0x67452301, 0xEFCDAB89, 0x98BADCFE, 0x10325476, 0xC3D2E1F0]
  digestWords _ := 5

section
variable (host : ByteOrder) (ctx : PHashContext 32 5)

def pCryptoHashSha1New : PHashContext 32 5 := mdNew sha1Algorithm false

def pCryptoHashSha1Reset : PHashContext 32 5 := mdReset sha1Algorithm ctx

def pCryptoHashSha1Update : List UInt8 → Option (PHashContext 32 5) := mdUpdate host sha1Algorithm ctx

def pCryptoHashSha1Finish : Option (PHashContext 32 5) := mdFinish host sha1Algorithm ctx

def pCryptoHashSha1Digest : List UInt8 := mdDigest host ctx

end

end Plibsys
