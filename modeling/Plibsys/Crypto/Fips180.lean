/-
  The compression functions of SHA-1 and SHA-2 as FIPS 180-4 defines them.
-/
import Mathlib.Data.Nat.NthRoot.Defs
import Plibsys.Lib.Compression

namespace Plibsys.Fips180

open Compression

/-! ## SHA-1 -/

/-- `f_t`. -/
def sha1F (t : ℕ) : BitVec 32 → BitVec 32 → BitVec 32 → BitVec 32 :=
  if t < 20 then choose else if t < 40 then parity else if t < 60 then majority else parity

/-- `K_t`. -/
def sha1K (t : ℕ) : BitVec 32 :=
  if t < 20 then 0x5A827999 else if t < 40 then 0x6ED9EBA1 else if t < 60 then 0x8F1BBCDC else 0xCA62C1D6

/-- `W_t = ROTL 1 (W_(t-3) xor W_(t-8) xor W_(t-14) xor W_(t-16))` from the word 16 on. -/
def sha1Word : Vector (BitVec 32) 16 → ℕ → BitVec 32 :=
  word (fun x y z u => (x ^^^ y ^^^ z ^^^ u).rotateLeft 1) 3 8 14

theorem sha1Word_of_lt {M : Vector (BitVec 32) 16} {t : ℕ} (h : t < 16) : sha1Word M t = M[t] := word_of_lt h

theorem sha1Word_of_le {M : Vector (BitVec 32) 16} {t : ℕ} (h : 16 ≤ t) : sha1Word M t =
    (sha1Word M (t - 3) ^^^ sha1Word M (t - 8) ^^^ sha1Word M (t - 14) ^^^ sha1Word M (t - 16)).rotateLeft 1 :=
  word_of_le h

structure Sha1Vars where
  a : BitVec 32
  b : BitVec 32
  c : BitVec 32
  d : BitVec 32
  e : BitVec 32

/-- The round `t`. -/
def sha1Step (W : ℕ → BitVec 32) (t : ℕ) (v : Sha1Vars) : Sha1Vars :=
  let T := v.a.rotateLeft 5 + sha1F t v.b v.c v.d + v.e + sha1K t + W t
  ⟨T, v.a, v.b.rotateLeft 30, v.c, v.d⟩

def sha1Compress (H : Vector (BitVec 32) 5) (M : Vector (BitVec 32) 16) : Vector (BitVec 32) 5 :=
  let v := rounds (sha1Step (sha1Word M)) ⟨H[0]!, H[1]!, H[2]!, H[3]!, H[4]!⟩ 80
  #v[v.a + H[0]!, v.b + H[1]!, v.c + H[2]!, v.d + H[3]!, v.e + H[4]!]

/-! ## SHA-2 -/

/-- The first 80 prime numbers. -/
def primes : List ℕ :=
  [2, 3, 5, 7, 11, 13, 17, 19, 23, 29, 31, 37, 41, 43, 47, 53, 59, 61, 67, 71, 73, 79, 83, 89, 97, 101,
    103, 107, 109, 113, 127, 131, 137, 139, 149, 151, 157, 163, 167, 173, 179, 181, 191, 193, 197, 199,
    211, 223, 227, 229, 233, 239, 241, 251, 257, 263, 269, 271, 277, 281, 283, 293, 307, 311, 313, 317,
    331, 337, 347, 349, 353, 359, 367, 373, 379, 383, 389, 397, 401, 409]

/-- The first `w` bits of the fractional part of the cube root of `p`. -/
def cubeRootBits (w p : ℕ) : BitVec w := BitVec.ofNat w (Nat.nthRoot 3 (p * 2 ^ (3 * w)))

/-- The functions and constants in which the algorithms with words of `w` bits differ. -/
structure Sha2 (w : ℕ) where
  /-- `Σ_0` -/
  bigSigma0 : BitVec w → BitVec w
  bigSigma1 : BitVec w → BitVec w
  /-- `σ_0` -/
  smallSigma0 : BitVec w → BitVec w
  smallSigma1 : BitVec w → BitVec w
  rounds : ℕ

def sha256 : Sha2 32 where
  bigSigma0 x := x.rotateRight 2 ^^^ x.rotateRight 13 ^^^ x.rotateRight 22
  bigSigma1 x := x.rotateRight 6 ^^^ x.rotateRight 11 ^^^ x.rotateRight 25
  smallSigma0 x := x.rotateRight 7 ^^^ x.rotateRight 18 ^^^ x >>> 3
  smallSigma1 x := x.rotateRight 17 ^^^ x.rotateRight 19 ^^^ x >>> 10
  rounds := 64

def sha512 : Sha2 64 where
  bigSigma0 x := x.rotateRight 28 ^^^ x.rotateRight 34 ^^^ x.rotateRight 39
  bigSigma1 x := x.rotateRight 14 ^^^ x.rotateRight 18 ^^^ x.rotateRight 41
  smallSigma0 x := x.rotateRight 1 ^^^ x.rotateRight 8 ^^^ x >>> 7
  smallSigma1 x := x.rotateRight 19 ^^^ x.rotateRight 61 ^^^ x >>> 6
  rounds := 80

structure Sha2Vars (w : ℕ) where
  a : BitVec w
  b : BitVec w
  c : BitVec w
  d : BitVec w
  e : BitVec w
  f : BitVec w
  g : BitVec w
  h : BitVec w

section
variable {w : ℕ} (alg : Sha2 w)

/-- `W_t = σ_1 (W_(t-2)) + W_(t-7) + σ_0 (W_(t-15)) + W_(t-16)` from the word 16 on. -/
def sha2Word : Vector (BitVec w) 16 → ℕ → BitVec w :=
  word (fun x y z u => alg.smallSigma1 x + y + alg.smallSigma0 z + u) 2 7 15

/-- `K_t`. -/
def sha2K (w t : ℕ) : BitVec w := cubeRootBits w primes[t]!

/-- The round `t`. -/
def sha2Step (W : ℕ → BitVec w) (t : ℕ) (v : Sha2Vars w) : Sha2Vars w :=
  let T1 := v.h + alg.bigSigma1 v.e + choose v.e v.f v.g + sha2K w t + W t
  let T2 := alg.bigSigma0 v.a + majority v.a v.b v.c
  ⟨T1 + T2, v.a, v.b, v.c, v.d + T1, v.e, v.f, v.g⟩

def sha2Compress (H : Vector (BitVec w) 8) (M : Vector (BitVec w) 16) : Vector (BitVec w) 8 :=
  let v := rounds (sha2Step alg (sha2Word alg M))
    ⟨H[0]!, H[1]!, H[2]!, H[3]!, H[4]!, H[5]!, H[6]!, H[7]!⟩ alg.rounds
  #v[v.a + H[0]!, v.b + H[1]!, v.c + H[2]!, v.d + H[3]!, v.e + H[4]!, v.f + H[5]!, v.g + H[6]!, v.h + H[7]!]

end

end Plibsys.Fips180
