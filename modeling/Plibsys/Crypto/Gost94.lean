/-
  The step hash function of GOST R 34.11-94, on strings of 256 bits.
-/
import Plibsys.Lib.BitParts
import Plibsys.Lib.Compression

namespace Plibsys.Gost94

open BitParts Compression

abbrev Block := BitVec 256

/-! ## GOST 28147-89 -/

section
variable (sbox : Fin 8 → BitVec 4 → BitVec 4)

/-- The substitution, on each part of 4 bits. -/
def substitute (x : BitVec 32) : BitVec 32 := join (Vector.ofFn fun i : Fin 8 => sbox i (part 4 i x))

def round (key : BitVec 32) (N : BitVec 32 × BitVec 32) : BitVec 32 × BitVec 32 :=
  ((substitute sbox (N.1 + key)).rotateLeft 11 ^^^ N.2, N.1)

/-- The parts of the key in order three times, and then once in reverse. -/
def roundKey (K : Block) (i : ℕ) : BitVec 32 := part 32 (if i < 24 then i % 8 else 7 - i % 8) K

/-- The last round does not exchange the halves. -/
def encrypt (K : Block) (x : BitVec 64) : BitVec 64 :=
  let N := rounds (fun i => round sbox (roundKey K i)) (part 32 0 x, part 32 1 x) 32
  join #v[N.2, N.1]

end

/-! ## The keys -/

/-- `A (y_4 ‖ y_3 ‖ y_2 ‖ y_1) = (y_1 xor y_2) ‖ y_4 ‖ y_3 ‖ y_2`. -/
def A (Y : Block) : Block := join #v[part 64 1 Y, part 64 2 Y, part 64 3 Y, part 64 0 Y ^^^ part 64 1 Y]

/-- The permutation `φ (i + 1 + 4 (k - 1)) = 8 i + k` of the bytes, counted from 0. -/
def P (Y : Block) : Block := join (Vector.ofFn fun m : Fin 32 => part 8 (8 * (m.val % 4) + m.val / 4) Y)

/-- `C_2`, `C_3` and `C_4`. -/
def C (j : ℕ) : Block :=
  if j = 3 then 0xFF00FFFF000000FFFF0000FF00FFFF0000FF00FF00FF00FFFF00FF00FF00FF00 else 0

/-- `U` and `V` for the key `j + 1`. -/
def keyState (H M : Block) : ℕ → Block × Block
  | 0 => (H, M)
  | j + 1 => (A (keyState H M j).1 ^^^ C (j + 2), A (A (keyState H M j).2))

/-- The key `j + 1`. -/
def key (H M : Block) (j : ℕ) : Block := P ((keyState H M j).1 ^^^ (keyState H M j).2)

/-! ## The mixing transformation -/

/-- The shift register: `y_16 ‖ ... ‖ y_1` becomes
    `(y_1 xor y_2 xor y_3 xor y_4 xor y_13 xor y_16) ‖ y_16 ‖ ... ‖ y_2`. -/
def shiftRegister {w : ℕ} (Y : Vector (BitVec w) 16) : Vector (BitVec w) 16 :=
  #v[Y[1], Y[2], Y[3], Y[4], Y[5], Y[6], Y[7], Y[8], Y[9], Y[10], Y[11], Y[12], Y[13], Y[14], Y[15],
    Y[0] ^^^ Y[1] ^^^ Y[2] ^^^ Y[3] ^^^ Y[12] ^^^ Y[15]]

def psi (Y : Block) : Block := join (shiftRegister (Vector.ofFn fun i : Fin 16 => part 16 i Y))

section
variable (sbox : Fin 8 → BitVec 4 → BitVec 4) (H M : Block)

/-- The four parts of the hash value under the four keys. -/
def S : Block :=
  join #v[encrypt sbox (key H M 0) (part 64 0 H), encrypt sbox (key H M 1) (part 64 1 H),
    encrypt sbox (key H M 2) (part 64 2 H), encrypt sbox (key H M 3) (part 64 3 H)]

def stepHash : Block := psi^[61] (H ^^^ psi (M ^^^ psi^[12] (S sbox H M)))

end

end Plibsys.Gost94
