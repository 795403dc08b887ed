/-
  Bit strings and their parts of equal width, the least significant part first, and linear
  combinations of parts.
-/
import Mathlib.Data.BitVec
import Mathlib.Data.Nat.Notation
import Mathlib.Tactic.Common

namespace BitParts

/-! ## Parts -/

section
variable {b w n : ℕ}

/-- The part `i` of `w` bits. -/
def part (w i : ℕ) (x : BitVec b) : BitVec w := x.extractLsb' (w * i) w

/-- The string with the given parts. -/
def join (v : Vector (BitVec w) n) : BitVec (w * n) :=
  (BitVec.ofBoolListLE (List.ofFn fun j : Fin (w * n) =>
    (v.get ⟨j.val / w, Nat.div_lt_of_lt_mul j.isLt⟩).getLsbD (j.val % w))).setWidth (w * n)

theorem getLsbD_part (w i : ℕ) (x : BitVec b) {j : ℕ} (hj : j < w) :
    (part w i x).getLsbD j = x.getLsbD (w * i + j) := by
  rw [part, BitVec.getLsbD_extractLsb', decide_eq_true hj, Bool.true_and]

theorem part_xor (w i : ℕ) (x y : BitVec b) : part w i (x ^^^ y) = part w i x ^^^ part w i y :=
  BitVec.extractLsb'_xor

theorem part_and (w i : ℕ) (x y : BitVec b) : part w i (x &&& y) = part w i x &&& part w i y :=
  BitVec.extractLsb'_and

theorem part_or (w i : ℕ) (x y : BitVec b) : part w i (x ||| y) = part w i x ||| part w i y :=
  BitVec.extractLsb'_or

/-- A part moves up with the string. -/
theorem part_shiftLeft (x : BitVec b) {i k : ℕ} (h : w * (i + k) + w ≤ b) :
    part w (i + k) (x <<< (w * k)) = part w i x := by
  apply BitVec.eq_of_getLsbD_eq
  intro j hj
  have hindex : w * (i + k) + j = w * k + (w * i + j) := by
    rw [Nat.mul_add]
    omega
  have hlt : w * (i + k) + j < b := by omega
  have hge : ¬ w * k + (w * i + j) < w * k := by omega
  rw [getLsbD_part w _ _ hj, getLsbD_part w _ _ hj, BitVec.getLsbD_shiftLeft, decide_eq_true hlt, hindex,
    decide_eq_false hge,
    Nat.add_sub_cancel_left]
  simp only [Bool.not_false, Bool.true_and]

/-- Zeros come from below. -/
theorem part_shiftLeft_low (x : BitVec b) {i k : ℕ} (h : i < k) : part w i (x <<< (w * k)) = 0 := by
  apply BitVec.eq_of_getLsbD_eq
  intro j hj
  have hle := Nat.mul_le_mul_left w h
  rw [Nat.mul_succ] at hle
  have hlt : w * i + j < w * k := by omega
  rw [getLsbD_part w _ _ hj, BitVec.getLsbD_shiftLeft, decide_eq_true hlt]
  simp only [Bool.not_true, Bool.and_false, Bool.false_and, BitVec.ofNat_eq_ofNat, BitVec.getLsbD_zero]

/-- A part moves down with the string. -/
theorem part_ushiftRight (x : BitVec b) (i k : ℕ) : part w i (x >>> (w * k)) = part w (i + k) x := by
  apply BitVec.eq_of_getLsbD_eq
  intro j hj
  rw [getLsbD_part w _ _ hj, getLsbD_part w _ _ hj, BitVec.getLsbD_ushiftRight, Nat.mul_add]
  congr 1
  omega

/-- Zeros come from above. -/
theorem part_of_le (x : BitVec b) {i : ℕ} (h : b ≤ w * i) : part w i x = 0 := by
  apply BitVec.eq_of_getLsbD_eq
  intro j hj
  rw [getLsbD_part w _ _ hj, BitVec.getLsbD_of_ge _ _ (by omega)]
  simp only [BitVec.ofNat_eq_ofNat, BitVec.getLsbD_zero]

theorem part_zero (w i : ℕ) : part w i (0 : BitVec b) = 0 := by
  apply BitVec.eq_of_getLsbD_eq
  intro j hj
  rw [getLsbD_part w i _ hj]
  simp only [BitVec.ofNat_eq_ofNat, BitVec.getLsbD_zero]

/-- A part of a part. -/
theorem part_part {u k i j : ℕ} (x : BitVec b) (hi : i < k) :
    part u i (part (u * k) j x) = part u (k * j + i) x := by
  apply BitVec.eq_of_getLsbD_eq
  intro r hr
  have hle := Nat.mul_le_mul_left u (Nat.succ_le_of_lt hi)
  rw [Nat.mul_succ] at hle
  have hlt : u * i + r < u * k := by omega
  have hindex : u * k * j + (u * i + r) = u * (k * j + i) + r := by
    rw [Nat.mul_add, Nat.mul_assoc, Nat.add_assoc]
  rw [getLsbD_part u _ _ hr, getLsbD_part (u * k) _ _ hlt, getLsbD_part u _ _ hr, hindex]

/-- A string is known by its parts. -/
theorem ext_part {x y : BitVec (w * n)} (h : ∀ i < n, part w i x = part w i y) : x = y := by
  apply BitVec.eq_of_getLsbD_eq
  intro j hj
  have hpos : 0 < w := Nat.pos_of_mul_pos_right (Nat.zero_lt_of_lt hj)
  have hmod := Nat.mod_lt j hpos
  have hpart := congrArg (fun p => p.getLsbD (j % w)) (h (j / w) (Nat.div_lt_of_lt_mul hj))
  simp only [getLsbD_part w _ _ hmod, Nat.div_add_mod] at hpart
  exact hpart

theorem getLsbD_join (v : Vector (BitVec w) n) {q r : ℕ} (hq : q < n) (hr : r < w) :
    (join v).getLsbD (w * q + r) = v[q].getLsbD r := by
  have hlt : w * q + r < w * n := by
    have hle := Nat.mul_le_mul_left w hq
    rw [Nat.mul_succ] at hle
    omega
  have hdiv : (w * q + r) / w = q := by
    rw [Nat.mul_add_div (Nat.zero_lt_of_lt hr), Nat.div_eq_of_lt hr, Nat.add_zero]
  have hmod : (w * q + r) % w = r := by
    rw [Nat.mul_add_mod, Nat.mod_eq_of_lt hr]
  rw [join, BitVec.getLsbD_setWidth, decide_eq_true hlt, Bool.true_and, BitVec.getLsbD_ofBoolListLE,
    List.getD_eq_getElem?_getD,
    List.getElem?_ofFn, dif_pos hlt, Option.getD_some]
  simp only [hdiv, hmod]
  rfl

/-- **A narrower part of a joined string** is part of a part. -/
theorem part_join {u k i : ℕ} (v : Vector (BitVec (u * k)) n) (hk : 0 < k) (hi : i / k < n) :
    part u i (join v) = part u (i % k) v[i / k] := by
  apply BitVec.eq_of_getLsbD_eq
  intro j hj
  have hr : u * (i % k) + j < u * k := by
    have hle := Nat.mul_le_mul_left u (Nat.mod_lt i hk)
    rw [Nat.mul_succ] at hle
    omega
  have hindex : u * i + j = u * k * (i / k) + (u * (i % k) + j) := by
    rw [Nat.mul_assoc, ← Nat.add_assoc, ← Nat.mul_add, Nat.div_add_mod]
  rw [getLsbD_part u _ _ hj, getLsbD_part u _ _ hj, hindex, getLsbD_join v hi hr]

theorem part_join_self {i : ℕ} (v : Vector (BitVec w) n) (hi : i < n) : part w i (join v) = v[i] := by
  apply BitVec.eq_of_getLsbD_eq
  intro j hj
  rw [getLsbD_part w _ _ hj, getLsbD_join v hi hj]

end

/-! ## Linear combinations -/

section
variable {w n : ℕ}

/-- The sum of the cells that the mask selects. -/
def select (Y : Vector (BitVec w) n) (m : BitVec n) : BitVec w :=
  (List.finRange n).foldr (fun i sum => (if m[i] then Y[i] else 0) ^^^ sum) 0

/-- **A selection is linear in the mask.** -/
theorem select_xor (Y : Vector (BitVec w) n) (m m' : BitVec n) :
    select Y (m ^^^ m') = select Y m ^^^ select Y m' := by
  rw [select, select, select]
  induction List.finRange n with
  | nil => exact BitVec.xor_self.symm
  | cons i is ih =>
    have hhead : (if (m ^^^ m')[i] then Y[i] else 0) =
      (if m[i] then Y[i] else 0) ^^^ (if m'[i] then Y[i] else 0) := by
      rw [Fin.getElem_fin, BitVec.getElem_xor]
      cases m[i.val] <;> cases m'[i.val] <;> simp
    rw [List.foldr_cons, List.foldr_cons, List.foldr_cons, ih, hhead]
    ac_rfl

theorem select_zero (Y : Vector (BitVec w) n) : select Y 0 = 0 := by
  have h := select_xor Y 0 0
  rw [BitVec.xor_self, BitVec.xor_self] at h
  exact h

/-- The mask of one cell. -/
theorem select_twoPow (Y : Vector (BitVec w) n) (i : Fin n) : select Y (BitVec.twoPow n i) = Y[i] := by
  have hbit : ∀ j : Fin n, (BitVec.twoPow n i)[j] = decide (j = i) := by
    intro j
    rw [Fin.getElem_fin, BitVec.getElem_twoPow, decide_eq_decide, Fin.ext_iff]
  have hsum : ∀ js : List (Fin n), js.Nodup →
      js.foldr (fun j sum => (if (BitVec.twoPow n i)[j] then Y[j] else 0) ^^^ sum) 0 =
        if i ∈ js then Y[i] else 0 := by
    intro js hnodup
    induction js with
    | nil => rfl
    | cons j js ih =>
      obtain ⟨hnot, hrest⟩ := List.nodup_cons.1 hnodup
      rw [List.foldr_cons, ih hrest, hbit]
      by_cases hj : j = i
      · subst hj
        rw [if_neg hnot, if_pos List.mem_cons_self, decide_eq_true rfl, if_pos rfl]
        exact BitVec.xor_zero
      · have hmem : i ∈ j :: js ↔ i ∈ js := List.mem_cons.trans (or_iff_right (Ne.symm hj))
        simp only [hj, decide_false, hmem]
        exact BitVec.zero_xor
  rw [select, hsum _ (List.nodup_finRange n), if_pos (List.mem_finRange i)]

end

end BitParts
