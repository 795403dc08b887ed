/-
  Decimal numerals: their digits, and the rational numbers that they denote.
-/
import Mathlib.Algebra.Order.Field.Rat
import Mathlib.Data.Nat.Digits.Defs
import Mathlib.Tactic.FieldSimp
import Mathlib.Tactic.Ring

namespace Decimal

/-- The number that digits denote, the most significant one first. -/
def number (ds : List (Fin 10)) : ℕ := Nat.ofDigits 10 (ds.map (·.val)).reverse

inductive Sign where
  | none
  | plus
  | minus
  deriving DecidableEq, Repr

/-- The sign is written, and says that the number is negative. -/
def Sign.negative (s : Sign) : Bool := s = .minus

structure Exponent where
  /-- written with the capital letter -/
  capital : Bool
  sign : Sign
  digits : List (Fin 10)
  deriving DecidableEq, Repr

/-- A sign, digits, digits behind a point, and an exponent. -/
structure Numeral where
  sign : Sign
  whole : List (Fin 10)
  fraction : Option (List (Fin 10))
  exponent : Option Exponent
  deriving DecidableEq, Repr

/-- The size of the exponent. -/
def Numeral.expon (n : Numeral) : ℕ := n.exponent.elim 0 fun e => number e.digits

/-- The exponent is negative. -/
def Numeral.exponNegative (n : Numeral) : Bool := n.exponent.elim false fun e => e.sign.negative

/-- The number without sign and exponent. -/
def Numeral.mantissa (n : Numeral) : ℚ :=
  number n.whole + n.fraction.elim 0 fun ds => (number ds : ℚ) / 10 ^ ds.length

/-- The number that is denoted, when the exponent is limited to `max`. -/
def Numeral.value (max : ℕ) (n : Numeral) : ℚ :=
  (if n.sign.negative then -1 else 1) *
    (n.mantissa * 10 ^ (if n.exponNegative then -(min n.expon max : ℤ) else (min n.expon max : ℤ)))

variable {d : Fin 10} {ds : List (Fin 10)}

@[simp] theorem number_nil : number [] = 0 := rfl

theorem number_cons (d : Fin 10) (ds : List (Fin 10)) : number (d :: ds) = d * 10 ^ ds.length + number ds := by
  rw [number, List.map_cons, Nat.ofDigits_reverse_cons, List.length_map, Nat.mul_comm, Nat.add_comm]
  rfl

/-- A power of ten is told by its exponent. -/
theorem mul_pow_inj {m : ℚ} {i j : ℕ} : m * 10 ^ i = m * 10 ^ j ↔ m = 0 ∨ i = j := by
  rw [mul_eq_mul_left_iff, or_comm]
  exact or_congr_right (pow_right_injective₀ (by norm_num) (by norm_num)).eq_iff

theorem div_pow_inj {m : ℚ} {i j : ℕ} : m / 10 ^ i = m / 10 ^ j ↔ m = 0 ∨ i = j := by
  rw [div_eq_mul_inv, div_eq_mul_inv, mul_eq_mul_left_iff, or_comm, inv_inj]
  exact or_congr_right (pow_right_injective₀ (by norm_num) (by norm_num)).eq_iff

end Decimal
