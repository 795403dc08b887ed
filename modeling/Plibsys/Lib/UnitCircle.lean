/-
  Points of the unit circle in fixed point: a turn by a small angle, additions of angles, and the
  digits of a sine.
-/
import Mathlib.Analysis.Complex.Exponential
import Mathlib.Analysis.Complex.Trigonometric
import Mathlib.Tactic.FieldSimp
import Mathlib.Tactic.LinearCombination
import Mathlib.Tactic.Linarith

namespace UnitCircle

open Complex

/-- A point with the scale `D`, and a bound on its distance from the point that it stands for. -/
structure Approx where
  re : ℤ
  im : ℤ
  err : ℕ

def Approx.val (p : Approx) : ℂ := p.re + p.im * I

/-- `p` stands for the point at the angle `θ`. -/
def Approx.Near (D : ℕ) (θ : ℝ) (p : Approx) : Prop := ‖D * exp (θ * I) - p.val‖ ≤ p.err

variable {D : ℕ} {θ η : ℝ} {p q : Approx}

/-! ## A small angle -/

/-- The angle `2 ^ -n` with `2 * n` bits. -/
def small (n : ℕ) : Approx := ⟨2 ^ (2 * n), 2 ^ n, 1⟩

theorem small_near (n : ℕ) : (small n).Near (2 ^ (2 * n)) ((2 ^ n : ℝ)⁻¹) := by
  set x : ℝ := (2 ^ n)⁻¹ with hx
  have hpow : (2 : ℝ) ^ (2 * n) * x = 2 ^ n := by
    rw [hx, two_mul, pow_add, mul_assoc, mul_inv_cancel₀ (by positivity), mul_one]
  have hscale : (2 : ℝ) ^ (2 * n) * x ^ 2 = 1 := by
    rw [pow_two, ← mul_assoc, hpow, hx, mul_inv_cancel₀ (by positivity)]
  have hnorm : ‖(x : ℂ) * I‖ = x := by
    rw [Complex.norm_mul, norm_I, mul_one, norm_real, Real.norm_of_nonneg (by positivity)]
  have hle : x ≤ 1 := inv_le_one_of_one_le₀ (one_le_pow₀ one_le_two)
  have hbound := exp_bound (n := 2) (hnorm.trans_le hle) (by decide)
  rw [hnorm, Finset.sum_range_succ, Finset.sum_range_one] at hbound
  simp only [pow_zero, pow_one, Nat.factorial_zero, Nat.factorial_one, Nat.cast_one, div_one] at hbound
  have hval : (small n).val = (2 ^ (2 * n) : ℝ) * (1 + x * I) := by
    rw [mul_add, mul_one, ← mul_assoc, ← ofReal_mul, hpow]
    simp only [small, Approx.val]
    push_cast
    rfl
  rw [Approx.Near, hval]
  push_cast
  rw [← mul_sub, Complex.norm_mul]
  have hpos : (0 : ℝ) ≤ 2 ^ (2 * n) := by positivity
  have hD : ‖((2 : ℂ) ^ (2 * n))‖ = 2 ^ (2 * n) := by rw [Complex.norm_pow, norm_ofNat]
  calc ‖((2 : ℂ) ^ (2 * n))‖ * ‖exp (x * I) - (1 + x * I)‖
      ≤ 2 ^ (2 * n) * (x ^ 2 * (((2 : ℕ).succ : ℝ) * (Nat.factorial 2 * (2 : ℕ) : ℝ)⁻¹)) := by
        rw [hD]
        exact mul_le_mul_of_nonneg_left hbound hpos
    _ = 3 / 4 := by
        rw [← mul_assoc, hscale]
        norm_num
    _ ≤ (small n).err := by
        simp only [small]
        norm_num

/-! ## Sums of angles -/

/-- The product of the points, rounded. -/
def Approx.add (D : ℕ) (p q : Approx) : Approx where
  re := (p.re * q.re - p.im * q.im) / D
  im := (p.re * q.im + p.im * q.re) / D
  err := p.err + q.err + p.err * q.err / D + 3

/-- Rounding moves a coordinate by at most 1. -/
theorem abs_sub_ediv_le (hD : 0 < D) (m : ℤ) : |(m : ℝ) / D - ((m / D : ℤ) : ℝ)| ≤ 1 := by
  have hpos : (0 : ℝ) < D := Nat.cast_pos.2 hD
  have hfloor : ((m / D : ℤ) : ℝ) * D ≤ m := by exact_mod_cast Int.ediv_mul_le m (by omega)
  have hceil : (m : ℝ) ≤ (((m / D : ℤ) : ℝ) + 1) * D := by
    exact_mod_cast (Int.lt_ediv_add_one_mul_self m (by omega)).le
  have hle := (le_div_iff₀ hpos).2 hfloor
  have hge := (div_le_iff₀ hpos).2 hceil
  rw [abs_le]
  constructor
  · linarith
  · linarith

theorem norm_scaled (D : ℕ) (θ : ℝ) : ‖(D : ℂ) * exp (θ * I)‖ = D := by
  rw [Complex.norm_mul, norm_exp_ofReal_mul_I, mul_one, norm_natCast]

/-- The rounding of a product. -/
theorem Approx.add_round (hD : 0 < D) (p q : Approx) : ‖p.val * q.val / D - (p.add D q).val‖ ≤ 2 := by
  have hre := abs_sub_ediv_le hD (p.re * q.re - p.im * q.im)
  have him := abs_sub_ediv_le hD (p.re * q.im + p.im * q.re)
  have hparts : p.val * q.val / D - (p.add D q).val =
      (((p.re * q.re - p.im * q.im : ℤ) : ℝ) / D - (((p.re * q.re - p.im * q.im) / D : ℤ) : ℝ) : ℝ) +
        (((p.re * q.im + p.im * q.re : ℤ) : ℝ) / D - (((p.re * q.im + p.im * q.re) / D : ℤ) : ℝ) : ℝ) * I := by
    simp only [Approx.val, Approx.add]
    push_cast
    linear_combination (p.im * q.im / D : ℂ) * I_sq
  rw [hparts]
  refine (norm_add_le _ _).trans ?_
  rw [Complex.norm_mul, norm_I, mul_one, norm_real, norm_real, Real.norm_eq_abs, Real.norm_eq_abs]
  linarith

/-- **The rule for a sum of angles.** -/
theorem Approx.Near.add (hD : 0 < D) (hp : p.Near D θ) (hq : q.Near D η) : (p.add D q).Near D (θ + η) := by
  have hpos : (0 : ℝ) < D := Nat.cast_pos.2 hD
  have hne : (D : ℂ) ≠ 0 := Nat.cast_ne_zero.2 hD.ne'
  set z := (D : ℂ) * exp (θ * I) with hz
  set w := (D : ℂ) * exp (η * I) with hw
  have hzw : (D : ℂ) * exp ((θ + η : ℝ) * I) = z * w / D := by
    rw [hz, hw, ofReal_add, add_mul, exp_add]
    field_simp
  have herror : z * w - p.val * q.val = (z - p.val) * w + z * (w - q.val) - (z - p.val) * (w - q.val) := by ring
  have hproduct : ‖z * w - p.val * q.val‖ ≤ p.err * D + D * q.err + p.err * q.err := by
    rw [herror]
    refine (norm_sub_le _ _).trans (add_le_add ((norm_add_le _ _).trans (add_le_add ?_ ?_)) ?_)
    · rw [Complex.norm_mul, hw, norm_scaled]
      exact mul_le_mul_of_nonneg_right hp hpos.le
    · rw [Complex.norm_mul, hz, norm_scaled]
      exact mul_le_mul_of_nonneg_left hq hpos.le
    · rw [Complex.norm_mul]
      exact mul_le_mul hp hq (norm_nonneg _) (Nat.cast_nonneg _)
  have hdiv : (p.err * q.err : ℝ) / D ≤ ((p.err * q.err / D : ℕ) : ℝ) + 1 := by
    rw [div_le_iff₀ hpos]
    exact_mod_cast (Nat.succ_mul _ _ ▸ Nat.lt_div_mul_add hD).le
  have hquotient : ‖(z * w - p.val * q.val) / D‖ ≤ p.err + q.err + ((p.err * q.err / D : ℕ) : ℝ) + 1 := by
    rw [Complex.norm_div, norm_natCast]
    refine (div_le_div_of_nonneg_right hproduct hpos.le).trans ?_
    rw [add_div, add_div, mul_div_cancel_right₀ _ hpos.ne', mul_div_cancel_left₀ _ hpos.ne']
    linarith
  rw [Approx.Near, hzw]
  calc ‖z * w / D - (p.add D q).val‖
      = ‖(z * w - p.val * q.val) / D + (p.val * q.val / D - (p.add D q).val)‖ := by
        rw [sub_div, sub_add_sub_cancel]
    _ ≤ (p.err + q.err + ((p.err * q.err / D : ℕ) : ℝ) + 1) + 2 :=
        (norm_add_le _ _).trans (add_le_add hquotient (Approx.add_round hD p q))
    _ = (p.add D q).err := by
        simp only [Approx.add]
        push_cast
        ring

/-! ## Multiples of an angle -/

/-- `2 ^ n` times the angle. -/
def Approx.double (D : ℕ) (p : Approx) : ℕ → Approx
  | 0 => p
  | n + 1 => (p.double D n).add D (p.double D n)

/-- `n + 1` times the angle. -/
def Approx.times (D : ℕ) (p : Approx) : ℕ → Approx
  | 0 => p
  | n + 1 => (p.times D n).add D p

theorem Approx.Near.double (hD : 0 < D) (h : p.Near D θ) (n : ℕ) : (p.double D n).Near D (2 ^ n * θ) := by
  induction n with
  | zero => rwa [pow_zero, one_mul]
  | succ n ih =>
    rw [pow_succ, mul_two, add_mul]
    exact ih.add hD ih

theorem Approx.Near.times (hD : 0 < D) (h : p.Near D θ) (n : ℕ) : (p.times D n).Near D ((n + 1) * θ) := by
  induction n with
  | zero => rwa [Nat.cast_zero, zero_add, one_mul]
  | succ n ih =>
    rw [Nat.cast_succ, add_mul, one_mul]
    exact ih.add hD h

/-- The angle 1, from `n` doublings of a small one. -/
def one (n : ℕ) : Approx := (small n).double (2 ^ (2 * n)) n

theorem one_near (n : ℕ) : (one n).Near (2 ^ (2 * n)) 1 := by
  have h := (small_near n).double (Nat.two_pow_pos _) n
  rwa [mul_inv_cancel₀ (by positivity)] at h

/-! ## Digits -/

/-- The point is far enough from a change of the `w` digits `k` of its ordinate. -/
def Approx.HasDigits (D w : ℕ) (p : Approx) (k : ℕ) : Prop :=
  k * D + p.err * 2 ^ w ≤ p.im.natAbs * 2 ^ w ∧ (p.im.natAbs + p.err) * 2 ^ w < (k + 1) * D

instance (D w : ℕ) (p : Approx) (k : ℕ) : Decidable (p.HasDigits D w k) := by
  unfold Approx.HasDigits
  infer_instance

/-- **The digits of the sine.** -/
theorem Approx.Near.digits {w k : ℕ} (hD : 0 < D) (h : p.Near D θ) (hk : p.HasDigits D w k) :
    ⌊2 ^ w * |Real.sin θ|⌋₊ = k := by
  have hpos : (0 : ℝ) < D := Nat.cast_pos.2 hD
  have him : |D * Real.sin θ - p.im| ≤ p.err := by
    have hle := (abs_im_le_norm _).trans h
    have hval : ((D : ℂ) * exp (θ * I) - p.val).im = D * Real.sin θ - p.im := by
      simp only [Approx.val, sub_im, add_im, mul_im, natCast_re, natCast_im, exp_ofReal_mul_I_im, intCast_im,
        intCast_re,
        I_im, I_re]
      ring
    rwa [hval] at hle
  have habs : |D * |Real.sin θ| - (p.im.natAbs : ℝ)| ≤ p.err := by
    have hnat : (p.im.natAbs : ℝ) = |(p.im : ℝ)| := by rw [Nat.cast_natAbs, Int.cast_abs]
    have hmul : D * |Real.sin θ| = |D * Real.sin θ| := by rw [abs_mul, abs_of_nonneg hpos.le]
    rw [hnat, hmul]
    exact (abs_abs_sub_abs_le _ _).trans him
  obtain ⟨hlow, hhigh⟩ := abs_le.1 habs
  have hscale : (0 : ℝ) < 2 ^ w := by positivity
  have hbelow : (k : ℝ) * D + p.err * 2 ^ w ≤ p.im.natAbs * 2 ^ w := by exact_mod_cast hk.1
  have habove : ((p.im.natAbs : ℝ) + p.err) * 2 ^ w < (k + 1) * D := by exact_mod_cast hk.2
  rw [Nat.floor_eq_iff (by positivity)]
  constructor
  · refine le_of_mul_le_mul_right ?_ hpos
    nlinarith
  · refine lt_of_mul_lt_mul_right ?_ hpos.le
    nlinarith

end UnitCircle
