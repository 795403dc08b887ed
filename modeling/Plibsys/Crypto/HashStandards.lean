/-
  The hash functions as their standards define them: on strings of bits, of any length.

  For MD5 and the functions of FIPS 180-4 a message is padded with a bit 1, zeros and its length, cut into blocks
  of 16 words, and compressed; MD5 takes the octets of its words and of the length in the opposite order.  GOST R
  34.11-94 takes blocks of 256 bits from the right end of a message, and hashes its length and the sum of its
  blocks after them.
-/
import Plibsys.Crypto.Fips180
import Plibsys.Crypto.Gost94
import Plibsys.Crypto.Rfc1321
import Plibsys.Lib.BitStrings

namespace Plibsys

open BitStrings Blocks Bytes

/-- In what the hash functions with words of `w` bits and hash values of `n` words differ. -/
structure HashStandard (w n : ℕ) where
  order : ByteOrder
  compress : Vector (BitVec w) n → Vector (BitVec w) 16 → Vector (BitVec w) n
  init : Vector (BitVec w) n
  outputWords : ℕ

namespace HashStandard

/-- A number of whole octets in the order of the standard. -/
def arrange : ByteOrder → List Bool → List Bool
  | .big, bits => bits
  | .little, bits => reverseOctets bits

/-- The number of zeros that lead to two words before the end of a block. -/
def zeros (w len : ℕ) : ℕ := (30 * w - (len + 1) % (16 * w)) % (16 * w)

/-- It is the least one: less than a block. -/
theorem zeros_spec {w : ℕ} (hw : 0 < w) (len : ℕ) :
    (len + 1 + zeros w len) % (16 * w) = 14 * w ∧ zeros w len < 16 * w := by
  have hmod : (len + 1) % (16 * w) < 16 * w := Nat.mod_lt _ (by omega)
  constructor
  · have hsum : (len + 1) % (16 * w) + (30 * w - (len + 1) % (16 * w)) = 14 * w + 16 * w := by omega
    rw [zeros, Nat.add_mod_mod, ← Nat.mod_add_mod, hsum, Nat.add_mod_right, Nat.mod_eq_of_lt (by omega)]
  · exact Nat.mod_lt _ (by omega)

section
variable {w n : ℕ} (S : HashStandard w n)

def pad (M : List Bool) : List Bool :=
  M ++ true :: List.replicate (zeros w M.length) false ++ arrange S.order (binary (2 * w) M.length)

/-- The words of a block. -/
def words (bits : List Bool) : Vector (BitVec w) 16 :=
  Vector.ofFn fun t : Fin 16 => BitVec.ofNat w (number (arrange S.order (block w bits t)))

/-- The bits of a hash value. -/
def output (H : Vector (BitVec w) n) : List Bool :=
  (H.toList.flatMap fun v => arrange S.order (binary w v.toNat)).take (S.outputWords * w)

/-- The hash of a string of bits. -/
def hash (M : List Bool) : List Bool :=
  let N := S.pad M
  S.output (chain (fun H bits => S.compress H (S.words bits)) (16 * w) S.init N (N.length / (16 * w)))

end

end HashStandard

namespace Fips180

/-- `w` bits of the fractional part of the square root of `p`. -/
def squareRootBits (w p : ℕ) : BitVec w := BitVec.ofNat w (Nat.sqrt (p * 2 ^ (2 * w)))

def sha1 : HashStandard 32 5 where
  order := .big
  compress := sha1Compress
  init := Vector.ofFn fun i : Fin 5 => [0x67452301, 0xEFCDAB89, 0x98BADCFE, 0x10325476, 0xC3D2E1F0][i.val]!
  outputWords := 5

/-- SHA-256: the square roots of the first eight primes. -/
def sha256Hash : HashStandard 32 8 where
  order := .big
  compress := sha2Compress sha256
  init := Vector.ofFn fun i : Fin 8 => squareRootBits 32 primes[i.val]!
  outputWords := 8

/-- SHA-224: the second 32 bits of the square roots of the ninth to the sixteenth prime. -/
def sha224Hash : HashStandard 32 8 where
  order := .big
  compress := sha2Compress sha256
  init := Vector.ofFn fun i : Fin 8 => (squareRootBits 64 primes[i.val + 8]!).setWidth 32
  outputWords := 7

/-- SHA-512: the square roots of the first eight primes. -/
def sha512Hash : HashStandard 64 8 where
  order := .big
  compress := sha2Compress sha512
  init := Vector.ofFn fun i : Fin 8 => squareRootBits 64 primes[i.val]!
  outputWords := 8

/-- SHA-384: the square roots of the ninth to the sixteenth prime. -/
def sha384Hash : HashStandard 64 8 where
  order := .big
  compress := sha2Compress sha512
  init := Vector.ofFn fun i : Fin 8 => squareRootBits 64 primes[i.val + 8]!
  outputWords := 6

end Fips180

namespace Rfc1321

noncomputable def md5 : HashStandard 32 4 where
  order := .little
  compress := compress
  init := Vector.ofFn fun i : Fin 4 => [0x67452301, 0xEFCDAB89, 0x98BADCFE, 0x10325476][i.val]!
  outputWords := 4

end Rfc1321

namespace Gost94

variable (sbox : Fin 8 → BitVec 4 → BitVec 4)

/-- The rest of a message, from its right end on, with the hash value, the sum of the blocks and the length so
    far. -/
def hashFrom (H total : Block) (L : ℕ) (M : List Bool) : Block :=
  if 256 < M.length then
    let Ms := BitVec.ofNat 256 (number (M.drop (M.length - 256)))
    hashFrom (stepHash sbox H Ms) (total + Ms) (L + 256) (M.take (M.length - 256))
  else
    -- zeros on the left do not change the number
    let Ms := BitVec.ofNat 256 (number M)
    let H := stepHash sbox H Ms
    let H := stepHash sbox H (BitVec.ofNat 256 (L + M.length))
    stepHash sbox H (total + Ms)
termination_by M.length
decreasing_by
  rw [List.length_take]
  omega

def hash (M : List Bool) : Block := hashFrom sbox 0 0 0 M

end Gost94

end Plibsys
