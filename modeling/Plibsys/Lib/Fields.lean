/-
  Fields of bits in a word.

  A field is a mask of consecutive bits.  Reading and replacing a field with the bit operations is
  division and remainder by powers of two.
-/
import Mathlib.Data.Nat.Bitwise

namespace Fields

variable {n o w : ℕ} {x y v : BitVec n}

/-- The mask of the `w` bits from the bit `o` on. -/
def mask (n o w : ℕ) : BitVec n := BitVec.ofNat n ((2 ^ w - 1) <<< o)

theorem and_shiftLeft (x o w : ℕ) : x &&& (2 ^ w - 1) <<< o = x / 2 ^ o % 2 ^ w * 2 ^ o := by
  rw [← Nat.shiftRight_eq_div_pow, ← Nat.shiftLeft_eq]
  refine Nat.eq_of_testBit_eq fun i => ?_
  rw [Nat.testBit_and, Nat.testBit_shiftLeft, Nat.testBit_shiftLeft, Nat.testBit_two_pow_sub_one,
    Nat.testBit_mod_two_pow,
    Nat.testBit_shiftRight]
  by_cases hi : o ≤ i
  · rw [Nat.add_sub_cancel' hi, Bool.and_comm (x.testBit i), Bool.and_assoc]
  · simp [hi]

theorem toNat_mask (h : o + w ≤ n) : (mask n o w).toNat = (2 ^ w - 1) <<< o := by
  rw [mask, BitVec.toNat_ofNat]
  refine Nat.mod_eq_of_lt ?_
  rw [Nat.shiftLeft_eq]
  have hlt : 2 ^ w - 1 < 2 ^ w := Nat.sub_lt (Nat.two_pow_pos w) (by decide)
  calc (2 ^ w - 1) * 2 ^ o < 2 ^ w * 2 ^ o := Nat.mul_lt_mul_of_pos_right hlt (Nat.two_pow_pos o)
    _ = 2 ^ (o + w) := by rw [Nat.mul_comm, Nat.pow_add]
    _ ≤ 2 ^ n := Nat.pow_le_pow_right (by decide) h

/-- Reading a field. -/
theorem toNat_and_mask (h : o + w ≤ n) (x : BitVec n) :
    (x &&& mask n o w).toNat = x.toNat / 2 ^ o % 2 ^ w * 2 ^ o := by
  rw [BitVec.toNat_and, toNat_mask h, and_shiftLeft]

theorem toNat_field (h : o + w ≤ n) (x : BitVec n) :
    ((x &&& mask n o w) >>> o).toNat = x.toNat / 2 ^ o % 2 ^ w := by
  rw [BitVec.toNat_ushiftRight, toNat_and_mask h, Nat.shiftRight_eq_div_pow,
    Nat.mul_div_cancel _ (Nat.two_pow_pos o)]

theorem toNat_or_of_disjoint (h : x &&& y = 0) : (x ||| y).toNat = x.toNat + y.toNat := by
  rw [← BitVec.add_eq_or_of_and_eq_zero x y h, BitVec.toNat_add_of_and_eq_zero h]

theorem not_mask_disjoint (x y m : BitVec n) : (x &&& ~~~m) &&& (y &&& m) = 0 := by
  ext i hi
  simp only [BitVec.getElem_and, BitVec.getElem_not]
  cases m[i] <;> simp

/-- The word without some of its bits. -/
theorem toNat_and_not (x m : BitVec n) : (x &&& ~~~m).toNat + (x &&& m).toNat = x.toNat := by
  have hsplit : (x &&& ~~~m) ||| (x &&& m) = x := by
    ext i hi
    simp only [BitVec.getElem_or, BitVec.getElem_and, BitVec.getElem_not]
    cases m[i] <;> simp
  rw [← toNat_or_of_disjoint (not_mask_disjoint x x m), hsplit]

theorem toNat_shiftLeft (h : o + w ≤ n) (hv : v.toNat < 2 ^ w) : (v <<< o).toNat = v.toNat * 2 ^ o := by
  rw [BitVec.toNat_shiftLeft, Nat.shiftLeft_eq]
  refine Nat.mod_eq_of_lt ?_
  calc v.toNat * 2 ^ o < 2 ^ w * 2 ^ o := Nat.mul_lt_mul_of_pos_right hv (Nat.two_pow_pos o)
    _ = 2 ^ (o + w) := by rw [Nat.mul_comm, Nat.pow_add]
    _ ≤ 2 ^ n := Nat.pow_le_pow_right (by decide) h

/-- **Replacing a field.** -/
theorem toNat_set (h : o + w ≤ n) (hv : v.toNat < 2 ^ w) (x : BitVec n) :
    ((x &&& ~~~mask n o w) ||| v <<< o).toNat + x.toNat / 2 ^ o % 2 ^ w * 2 ^ o = x.toNat + v.toNat * 2 ^ o := by
  have hinside : v <<< o &&& mask n o w = v <<< o := by
    refine BitVec.eq_of_toNat_eq ?_
    rw [toNat_and_mask h, toNat_shiftLeft h hv, Nat.mul_div_cancel _ (Nat.two_pow_pos o), Nat.mod_eq_of_lt hv]
  have hdisjoint : (x &&& ~~~mask n o w) &&& v <<< o = 0 := by
    rw [← hinside]
    exact not_mask_disjoint _ _ _
  have hrest := toNat_and_not x (mask n o w)
  rw [toNat_and_mask h] at hrest
  rw [toNat_or_of_disjoint hdisjoint, toNat_shiftLeft h hv]
  omega

end Fields
