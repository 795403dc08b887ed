/-
  The compression function of MD5 as RFC 1321 defines it.
-/
import Plibsys.Lib.Compression
import Plibsys.Lib.UnitCircle

namespace Plibsys.Rfc1321

open Compression

section
variable (X Y Z : BitVec 32)

def F : BitVec 32 := (X &&& Y) ||| (~~~X &&& Z)

def G : BitVec 32 := (X &&& Z) ||| (Y &&& ~~~Z)

def H : BitVec 32 := X ^^^ Y ^^^ Z

def I : BitVec 32 := Y ^^^ (X ||| ~~~Z)

end

/-- The function of the step `i`. -/
def function (i : ℕ) : BitVec 32 → BitVec 32 → BitVec 32 → BitVec 32 :=
  if i < 16 then F else if i < 32 then G else if i < 48 then H else I

/-- The word of the block. -/
def index (i : ℕ) : ℕ :=
  (if i < 16 then i else if i < 32 then 5 * i + 1 else if i < 48 then 3 * i + 5 else 7 * i) % 16

def shift (i : ℕ) : ℕ :=
  if i < 16 then #v[7, 12, 17, 22][i % 4]!
  else if i < 32 then #v[5, 9, 14, 20][i % 4]!
  else if i < 48 then #v[4, 11, 16, 23][i % 4]!
  else #v[6, 10, 15, 21][i % 4]!

/-- The integer part of `2 ^ 32 * |sin (i + 1)|`. -/
noncomputable def T (i : ℕ) : BitVec 32 := BitVec.ofNat 32 ⌊2 ^ 32 * |Real.sin (i + 1)|⌋₊

structure Registers where
  A : BitVec 32
  B : BitVec 32
  C : BitVec 32
  D : BitVec 32

/-- The step `i`, which also renames the registers: the next one works on `D`, `A`, `B` and `C`. -/
noncomputable def step (X : Vector (BitVec 32) 16) (i : ℕ) (r : Registers) : Registers :=
  let A := r.B + (r.A + function i r.B r.C r.D + X[index i]! + T i).rotateLeft (shift i)
  ⟨r.D, A, r.B, r.C⟩

noncomputable def compress (S : Vector (BitVec 32) 4) (X : Vector (BitVec 32) 16) : Vector (BitVec 32) 4 :=
  let r := rounds (step X) ⟨S[0]!, S[1]!, S[2]!, S[3]!⟩ 64
  #v[r.A + S[0]!, r.B + S[1]!, r.C + S[2]!, r.D + S[3]!]

end Plibsys.Rfc1321
