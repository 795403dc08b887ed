/-
  Adding numbers of several words, with the carry found by comparing words.

  A sum that is smaller than one of its operands has wrapped.  With a carry coming in this
  misses the case of two words of ones (`KeepsCarry`); without that case `addWords` is addition
  modulo the size of the number, and with it (`LosesCarry`) it is not.
-/
import Mathlib.Data.BitVec
import Mathlib.Data.Nat.Digits.Defs

namespace WordSum

variable {w : ℕ}

/-- The number with these words, the least significant first. -/
def number (as : List (BitVec w)) : ℕ := Nat.ofDigits (2 ^ w) (as.map BitVec.toNat)

/-- The sum of two words and a carry. -/
def sum (a b : BitVec w) (carry : Bool) : BitVec w := a + b + if carry then 1 else 0

/-- The sum is smaller than an operand. -/
def carryOut (a b : BitVec w) (carry : Bool) : Bool := sum a b carry < a || sum a b carry < b

/-- Add words from the least significant one on. -/
def addWords : List (BitVec w) → List (BitVec w) → Bool → List (BitVec w)
  | a :: as, b :: bs, carry => sum a b carry :: addWords as bs (carryOut a b carry)
  | _, _, _ => []

/-- No carry comes to two words of ones. -/
def KeepsCarry : List (BitVec w) → List (BitVec w) → Bool → Prop
  | a :: as, b :: bs, carry =>
    (carry = true → ¬ (a = BitVec.allOnes w ∧ b = BitVec.allOnes w)) ∧ KeepsCarry as bs (carryOut a b carry)
  | _, _, _ => True

variable {a b : BitVec w} {as bs : List (BitVec w)} {carry : Bool}

@[simp] theorem number_cons : number (a :: as) = a.toNat + 2 ^ w * number as := by
  rw [number, List.map_cons, Nat.ofDigits_cons]
  rfl

theorem eq_allOnes (h : a.toNat + 1 = 2 ^ w) : a = BitVec.allOnes w := by
  apply BitVec.eq_of_toNat_eq
  rw [BitVec.toNat_allOnes]
  omega

variable (a b carry) in
theorem toNat_sum (hw : 0 < w) : (sum a b carry).toNat = (a.toNat + b.toNat + carry.toNat) % 2 ^ w := by
  have hone : (1 : BitVec w).toNat = 1 := BitVec.toNat_one hw
  cases carry with
  | false => simp [sum]
  | true =>
    rw [sum, if_pos rfl, BitVec.toNat_add, BitVec.toNat_add, hone, Nat.mod_add_mod]
    rfl

/-- The comparison finds the carry. -/
theorem sum_add_carryOut (hw : 0 < w) (h : carry = true → ¬ (a = BitVec.allOnes w ∧ b = BitVec.allOnes w)) :
    (sum a b carry).toNat + 2 ^ w * (carryOut a b carry).toNat = a.toNat + b.toNat + carry.toNat := by
  have ha := a.isLt
  have hb := b.isLt
  have hc := carry.toNat_le
  have hones : carry.toNat = 1 → ¬ (a.toNat + 1 = 2 ^ w ∧ b.toNat + 1 = 2 ^ w) := fun h1 ⟨h2, h3⟩ =>
    h (Bool.toNat_eq_one.1 h1) ⟨eq_allOnes h2, eq_allOnes h3⟩
  have hsum := toNat_sum a b carry hw
  have hout : carryOut a b carry = decide ((sum a b carry).toNat < a.toNat ∨ (sum a b carry).toNat < b.toNat) := by
    rw [carryOut, Bool.decide_or]
    rfl
  by_cases hle : 2 ^ w ≤ a.toNat + b.toNat + carry.toNat
  · have hmod : (a.toNat + b.toNat + carry.toNat) % 2 ^ w = a.toNat + b.toNat + carry.toNat - 2 ^ w := by
      rw [Nat.mod_eq_sub_mod hle, Nat.mod_eq_of_lt (by omega)]
    have htrue : carryOut a b carry = true := by
      rw [hout, decide_eq_true_iff]
      omega
    rw [htrue, Bool.toNat_true, hsum, hmod]
    omega
  · have hmod := Nat.mod_eq_of_lt (Nat.lt_of_not_le hle)
    have hfalse : carryOut a b carry = false := by
      rw [hout, decide_eq_false_iff_not]
      omega
    rw [hfalse, Bool.toNat_false, hsum, hmod]
    omega

/-- **The sum of the words is the sum of the numbers**, modulo their size. -/
theorem number_addWords (hw : 0 < w) (hlen : as.length = bs.length) (h : KeepsCarry as bs carry) :
    number (addWords as bs carry) = (number as + number bs + carry.toNat) % 2 ^ (w * as.length) := by
  induction as generalizing bs carry with
  | nil => simp [addWords, number, Nat.mod_one]
  | cons a as ih =>
    obtain _ | ⟨b, bs⟩ := bs
    · cases hlen
    · obtain ⟨hones, hrest⟩ := h
      have hword := sum_add_carryOut hw hones
      have hlt := (sum a b carry).isLt
      have hsum : number (a :: as) + number (b :: bs) + carry.toNat =
          (sum a b carry).toNat + 2 ^ w * (number as + number bs + (carryOut a b carry).toNat) := by
        rw [number_cons, number_cons, Nat.mul_add, Nat.mul_add]
        omega
      rw [addWords, number_cons, ih (Nat.succ.inj hlen) hrest, hsum, List.length_cons, Nat.mul_succ, Nat.pow_add,
        Nat.mul_comm _ (2 ^ w), Nat.mod_mul, Nat.add_mul_mod_self_left, Nat.mod_eq_of_lt hlt,
        Nat.add_mul_div_left _ _ (Nat.two_pow_pos w), Nat.div_eq_of_lt hlt, Nat.zero_add]

/-- Small words keep the carry. -/
theorem keepsCarry_of_ne (h : ∀ b ∈ bs, b ≠ BitVec.allOnes w) : KeepsCarry as bs carry := by
  induction as generalizing bs carry with
  | nil => trivial
  | cons a as ih =>
    obtain _ | ⟨b, bs⟩ := bs
    · trivial
    · exact ⟨fun _ hones => h b List.mem_cons_self hones.2, ih fun b' hb' => h b' (List.mem_cons_of_mem _ hb')⟩

theorem keepsCarry_cons (h : ∀ b ∈ bs, b ≠ BitVec.allOnes w) : KeepsCarry (a :: as) (b :: bs) false :=
  ⟨nofun, keepsCarry_of_ne h⟩

/-! ## Lost carries -/

/-- The word `i` of a number of words. -/
def wordAt (w A i : ℕ) : ℕ := A / 2 ^ (w * i) % 2 ^ w

/-- A carry comes to two words of ones, and there is a word behind them. -/
def LosesCarry (w n A B carry : ℕ) : Prop :=
  ∃ i, i + 1 < n ∧ wordAt w A i = 2 ^ w - 1 ∧ wordAt w B i = 2 ^ w - 1 ∧
    2 ^ (w * i) ≤ A % 2 ^ (w * i) + B % 2 ^ (w * i) + carry

variable {x A B c c' n i : ℕ}

theorem wordAt_zero (hx : x < 2 ^ w) : wordAt w (x + 2 ^ w * A) 0 = x := by
  rw [wordAt, Nat.mul_zero, Nat.pow_zero, Nat.div_one, Nat.add_mul_mod_self_left, Nat.mod_eq_of_lt hx]

theorem wordAt_succ (hx : x < 2 ^ w) : wordAt w (x + 2 ^ w * A) (i + 1) = wordAt w A i := by
  rw [wordAt, wordAt, Nat.mul_succ, Nat.add_comm (w * i), Nat.pow_add, ← Nat.div_div_eq_div_mul,
    Nat.add_mul_div_left _ _ (Nat.two_pow_pos w), Nat.div_eq_of_lt hx, Nat.zero_add]

theorem mod_succ (hx : x < 2 ^ w) : (x + 2 ^ w * A) % 2 ^ (w * (i + 1)) = x + 2 ^ w * (A % 2 ^ (w * i)) := by
  rw [Nat.mul_succ, Nat.add_comm (w * i), Nat.pow_add, Nat.mod_mul, Nat.add_mul_mod_self_left, Nat.mod_eq_of_lt hx,
    Nat.add_mul_div_left _ _ (Nat.two_pow_pos w), Nat.div_eq_of_lt hx, Nat.zero_add]

/-- Behind the first word, with the carry that comes out of it. -/
theorem losesCarry_cons {x y s : ℕ} (hx : x < 2 ^ w) (hy : y < 2 ^ w) (hs : s < 2 ^ w)
    (hsum : s + 2 ^ w * c' = x + y + c) (hfirst : ¬ (x = 2 ^ w - 1 ∧ y = 2 ^ w - 1 ∧ 1 ≤ c)) :
    LosesCarry w (n + 1) (x + 2 ^ w * A) (y + 2 ^ w * B) c ↔ LosesCarry w n A B c' := by
  have hcarry : ∀ i, 2 ^ (w * (i + 1)) ≤ x + 2 ^ w * (A % 2 ^ (w * i)) + (y + 2 ^ w * (B % 2 ^ (w * i))) + c ↔
      2 ^ (w * i) ≤ A % 2 ^ (w * i) + B % 2 ^ (w * i) + c' := by
    intro i
    rw [Nat.mul_succ, Nat.add_comm (w * i), Nat.pow_add]
    generalize A % 2 ^ (w * i) = a
    generalize B % 2 ^ (w * i) = b
    generalize 2 ^ (w * i) = m
    have hsplit : x + 2 ^ w * a + (y + 2 ^ w * b) + c = s + 2 ^ w * (a + b + c') := by
      rw [Nat.mul_add, Nat.mul_add]
      omega
    rw [hsplit]
    constructor
    · intro h
      by_contra hlt
      have hmul := Nat.mul_le_mul_left (2 ^ w) (Nat.lt_of_not_le hlt)
      rw [Nat.mul_succ] at hmul
      omega
    · intro h
      exact (Nat.mul_le_mul_left _ h).trans (Nat.le_add_left _ _)
  constructor
  · rintro ⟨i, hi, hA, hB, hle⟩
    cases i with
    | zero =>
      rw [wordAt_zero hx] at hA
      rw [wordAt_zero hy] at hB
      rw [Nat.mul_zero, Nat.pow_zero, Nat.mod_one, Nat.mod_one] at hle
      exact absurd ⟨hA, hB, by omega⟩ hfirst
    | succ i =>
      rw [wordAt_succ hx] at hA
      rw [wordAt_succ hy] at hB
      rw [mod_succ hx, mod_succ hy, hcarry] at hle
      exact ⟨i, Nat.lt_of_succ_lt_succ hi, hA, hB, hle⟩
  · rintro ⟨i, hi, hA, hB, hle⟩
    refine ⟨i + 1, Nat.succ_lt_succ hi, ?_, ?_, ?_⟩
    · rwa [wordAt_succ hx]
    · rwa [wordAt_succ hy]
    · rwa [mod_succ hx, mod_succ hy, hcarry]

/-- What is read of a number modulo its size. -/
theorem add_mul_mod_pow_succ (hx : x < 2 ^ w) :
    x + 2 ^ w * A = (x + 2 ^ w * B) % 2 ^ (w * (n + 1)) ↔ A = B % 2 ^ (w * n) := by
  rw [mod_succ hx, Nat.add_left_cancel_iff, Nat.mul_left_cancel_iff (Nat.two_pow_pos w)]

/-- The first word of a sum. -/
theorem number_addWords_mod (hw : 0 < w) :
    number (addWords (a :: as) (b :: bs) carry) % 2 ^ w = (a.toNat + b.toNat + carry.toNat) % 2 ^ w := by
  rw [addWords, number_cons, Nat.add_mul_mod_self_left, toNat_sum a b carry hw, Nat.mod_mod]

theorem allOnes_iff : a = BitVec.allOnes w ↔ a.toNat = 2 ^ w - 1 := by
  rw [← BitVec.toNat_inj, BitVec.toNat_allOnes]

/-- A sum of ones and a carry gives ones again, which are not smaller. -/
theorem sum_allOnes (hw : 0 < w) : (sum (BitVec.allOnes w) (BitVec.allOnes w) true).toNat = 2 ^ w - 1 ∧
    carryOut (BitVec.allOnes w) (BitVec.allOnes w) true = false := by
  have hpos := Nat.two_pow_pos w
  have hsum : (sum (BitVec.allOnes w) (BitVec.allOnes w) true).toNat = 2 ^ w - 1 := by
    rw [toNat_sum _ _ _ hw, BitVec.toNat_allOnes, Bool.toNat_true,
      show 2 ^ w - 1 + (2 ^ w - 1) + 1 =
        2 ^ w - 1 + 2 ^ w by omega, Nat.add_mod_right, Nat.mod_eq_of_lt (by omega)]
  have hnot : ¬ sum (BitVec.allOnes w) (BitVec.allOnes w) true < BitVec.allOnes w := by
    rw [BitVec.lt_def, hsum, BitVec.toNat_allOnes]
    exact Nat.lt_irrefl _
  exact ⟨hsum, by rw [carryOut, decide_eq_false hnot]; rfl⟩

/-- A lost carry is missing in the next word. -/
theorem number_addWords_ne {a' b' : BitVec w} (hw : 0 < w) :
    number (addWords (BitVec.allOnes w :: a' :: as) (BitVec.allOnes w :: b' :: bs) true) ≠
      (number (BitVec.allOnes w :: a' :: as) + number (BitVec.allOnes w :: b' :: bs) + 1) %
        2 ^ (w * (as.length + 1 + 1)) := by
  intro heq
  obtain ⟨hsum, hcarry⟩ := sum_allOnes hw
  have hpos := Nat.two_pow_pos w
  have htotal : number (BitVec.allOnes w :: a' :: as) + number (BitVec.allOnes w :: b' :: bs) + 1 =
      2 ^ w - 1 + 2 ^ w * (number (a' :: as) + number (b' :: bs) + 1) := by
    rw [number_cons, @number_cons _ _ (b' :: bs), BitVec.toNat_allOnes, Nat.mul_add, Nat.mul_add]
    omega
  rw [htotal, addWords, number_cons, hsum, hcarry, add_mul_mod_pow_succ (by omega)] at heq
  have hwords : number (a' :: as) + number (b' :: bs) + 1 =
      a'.toNat + b'.toNat + 1 + 2 ^ w * (number as + number bs) := by
    rw [number_cons, number_cons, Nat.mul_add]
    omega
  have hone : a'.toNat + b'.toNat + 0 ≡ a'.toNat + b'.toNat + 1 [MOD 2 ^ w] := by
    have hfirst := congrArg (· % 2 ^ w) heq
    rwa [number_addWords_mod hw, Nat.mod_mod_of_dvd _ (pow_dvd_pow 2 (Nat.le_mul_of_pos_right _ (Nat.succ_pos _))),
      hwords, Nat.add_mul_mod_self_left] at hfirst
  have hlt : 1 < 2 ^ w := Nat.one_lt_two_pow (Nat.pos_iff_ne_zero.1 hw)
  have hzero := Nat.ModEq.add_left_cancel' _ hone
  rw [Nat.ModEq, Nat.zero_mod, Nat.mod_eq_of_lt hlt] at hzero
  cases hzero

/-- **The sum of the words is the sum of the numbers exactly when no carry is lost.** -/
theorem number_addWords_iff (hw : 0 < w) (hlen : as.length = bs.length) :
    number (addWords as bs carry) = (number as + number bs + carry.toNat) % 2 ^ (w * as.length) ↔
      ¬ LosesCarry w as.length (number as) (number bs) carry.toNat := by
  induction as generalizing bs carry with
  | nil =>
    refine iff_of_true ?_ ?_
    · simp [addWords, number, Nat.mod_one]
    · rintro ⟨i, hi, -⟩
      cases hi
  | cons a as ih =>
    obtain _ | ⟨b, bs⟩ := bs
    · cases hlen
    · have hlen := Nat.succ.inj hlen
      by_cases hloss : carry = true ∧ a = BitVec.allOnes w ∧ b = BitVec.allOnes w
      · obtain ⟨rfl, hones, hones'⟩ := hloss
        rcases as with _ | ⟨a', as⟩
        · obtain rfl := List.eq_nil_of_length_eq_zero hlen.symm
          refine iff_of_true ?_ ?_
          · simp [addWords, number, toNat_sum a b true hw]
          · rintro ⟨i, hi, -⟩
            simp at hi
        · obtain _ | ⟨b', bs⟩ := bs
          · cases hlen
          · refine iff_of_false ?_ (not_not_intro ⟨0, ?_, ?_, ?_, ?_⟩)
            · rw [hones, hones']
              exact number_addWords_ne hw
            · simp
            · rw [number_cons, wordAt_zero a.isLt, allOnes_iff.1 hones]
            · rw [number_cons, wordAt_zero b.isLt, allOnes_iff.1 hones']
            · simp
      · have hones : carry = true → ¬ (a = BitVec.allOnes w ∧ b = BitVec.allOnes w) := fun hc h => hloss ⟨hc, h⟩
        have hword := sum_add_carryOut hw hones
        have hfirst : ¬ (a.toNat = 2 ^ w - 1 ∧ b.toNat = 2 ^ w - 1 ∧ 1 ≤ carry.toNat) := by
          rintro ⟨ha, hb, hc⟩
          exact hloss ⟨by cases carry <;> simp at hc ⊢, allOnes_iff.2 ha, allOnes_iff.2 hb⟩
        have hsum : number (a :: as) + number (b :: bs) + carry.toNat =
            (sum a b carry).toNat + 2 ^ w * (number as + number bs + (carryOut a b carry).toNat) := by
          rw [number_cons, number_cons, Nat.mul_add, Nat.mul_add]
          omega
        rw [addWords, number_cons, hsum, List.length_cons, add_mul_mod_pow_succ (sum a b carry).isLt, ih hlen,
          number_cons, number_cons, losesCarry_cons a.isLt b.isLt (sum a b carry).isLt hword hfirst]

end WordSum
