/-
  Compression functions on words: bitwise functions and their other forms, message schedules of
  which a circular buffer keeps the last 16 words, and rounds.
-/
import Mathlib.Data.BitVec
import Mathlib.Data.Nat.Notation
import Mathlib.Tactic.Common

namespace Compression

/-! ## Bitwise functions -/

section
variable {w : ℕ} (x y z : BitVec w)

/-- Each bit of `x` selects a bit of `y` or of `z`. -/
def choose : BitVec w := (x &&& y) ^^^ (~~~x &&& z)

def parity : BitVec w := x ^^^ y ^^^ z

def majority : BitVec w := (x &&& y) ^^^ (x &&& z) ^^^ (y &&& z)

theorem or_eq_choose : (x &&& y) ||| (~~~x &&& z) = choose x y z := by
  ext i hi
  simp only [choose, BitVec.getElem_or, BitVec.getElem_xor, BitVec.getElem_and, BitVec.getElem_not]
  cases x[i] <;> cases y[i] <;> cases z[i] <;> rfl

theorem xor_eq_choose : z ^^^ (x &&& (y ^^^ z)) = choose x y z := by
  ext i hi
  simp only [choose, BitVec.getElem_xor, BitVec.getElem_and, BitVec.getElem_not]
  cases x[i] <;> cases y[i] <;> cases z[i] <;> rfl

theorem or_eq_majority : (x &&& y) ||| (x &&& z) ||| (y &&& z) = majority x y z := by
  ext i hi
  simp only [majority, BitVec.getElem_or, BitVec.getElem_xor, BitVec.getElem_and]
  cases x[i] <;> cases y[i] <;> cases z[i] <;> rfl

theorem and_or_eq_majority : (x &&& y) ||| (z &&& (x ||| y)) = majority x y z := by
  ext i hi
  simp only [majority, BitVec.getElem_or, BitVec.getElem_xor, BitVec.getElem_and]
  cases x[i] <;> cases y[i] <;> cases z[i] <;> rfl

variable {r : ℕ}

theorem shift_or_eq_rotateLeft (h : r < w) : x <<< r ||| x >>> (w - r) = x.rotateLeft r := by
  rw [BitVec.rotateLeft_def, Nat.mod_eq_of_lt h]

theorem shift_or_eq_rotateRight (h : r < w) : x >>> r ||| x <<< (w - r) = x.rotateRight r := by
  rw [BitVec.rotateRight_def, Nat.mod_eq_of_lt h]

end

/-! ## Schedules -/

section
variable {α : Type}

/-- The words of a schedule: those of the block, and then each from the words `a`, `b`, `c` and 16 places
    before it. -/
def word (next : α → α → α → α → α) (a b c : ℕ) [NeZero a] [NeZero b] [NeZero c] (M : Vector α 16) (t : ℕ) : α :=
  if h : t < 16 then M[t]
  else next (word next a b c M (t - a)) (word next a b c M (t - b)) (word next a b c M (t - c))
    (word next a b c M (t - 16))
termination_by t
decreasing_by
  · exact Nat.sub_lt (by omega) (Nat.pos_of_neZero a)
  · exact Nat.sub_lt (by omega) (Nat.pos_of_neZero b)
  · exact Nat.sub_lt (by omega) (Nat.pos_of_neZero c)
  · omega

variable {next : α → α → α → α → α} {a b c : ℕ} [NeZero a] [NeZero b] [NeZero c] {M : Vector α 16} {t : ℕ}

theorem word_of_lt (h : t < 16) : word next a b c M t = M[t] := by
  rw [word, dif_pos h]

theorem word_of_le (h : 16 ≤ t) :
    word next a b c M t = next (word next a b c M (t - a)) (word next a b c M (t - b))
    (word next a b c M (t - c)) (word next a b c M (t - 16)) := by
  rw [word, dif_neg (Nat.not_lt.2 h)]

end

/-! ## Rounds -/

section
variable {σ : Type} (step : ℕ → σ → σ) (s : σ)

/-- The first `n` rounds. -/
def rounds : ℕ → σ
  | 0 => s
  | n + 1 => step n (rounds n)

/-- Rounds are a fold over their arguments. -/
theorem rounds_eq_foldl {α : Type} (f : σ → α → σ) (arg : ℕ → α) (n : ℕ) :
    rounds (fun i s => f s (arg i)) s n = ((List.range n).map arg).foldl f s := by
  induction n with
  | zero => rfl
  | succ n ih => rw [rounds, ih, List.range_succ, List.map_append, List.foldl_append, List.map_singleton,
      List.foldl_cons,
      List.foldl_nil]

end

/-! ## A circular buffer -/

section
variable {α : Type} [Inhabited α] {words : ℕ → α} {W : Vector α 16} {i : ℕ}

/-- The buffer holds the 16 words before the word `i`, or the first 16 words. -/
def Window (words : ℕ → α) (W : Vector α 16) (i : ℕ) : Prop := ∀ t, t < max i 16 → i ≤ t + 16 →
    W[t % 16]! = words t

theorem Window.start (h : ∀ t, (ht : t < 16) → W[t] = words t) : Window words W 0 := by
  intro t ht _
  have hlt : t < 16 := by omega
  rw [Nat.mod_eq_of_lt hlt, getElem!_pos W t hlt, h t hlt]

/-- The first words are there. -/
theorem Window.skip (h : Window words W i) (hi : i < 16) : W[i % 16]! = words i ∧ Window words W (i + 1) := by
  refine ⟨h i (by omega) (by omega), fun t ht hle => ?_⟩
  exact h t (by omega) (by omega)

/-- **The next word replaces the oldest one.** -/
theorem Window.push (h : Window words W i) (hi : 16 ≤ i) :
    (W.set! (i % 16) (words i))[i % 16]! = words i ∧ Window words (W.set! (i % 16) (words i)) (i + 1) := by
  have hlt : i % 16 < 16 := Nat.mod_lt _ (by decide)
  have hself : (W.set! (i % 16) (words i))[i % 16]! = words i := by
    rw [getElem!_pos (W.set! (i % 16) (words i)) (i % 16) hlt]
    exact Vector.getElem_setIfInBounds_self hlt
  refine ⟨hself, fun t ht hle => ?_⟩
  by_cases htime : t = i
  · rw [htime, hself]
  · have hold := h t (by omega) (by omega)
    have hne : i % 16 ≠ t % 16 := by omega
    have hlt' : t % 16 < 16 := Nat.mod_lt _ (by decide)
    rw [getElem!_pos W (t % 16) hlt'] at hold
    rw [getElem!_pos (W.set! (i % 16) (words i)) (t % 16) hlt', ← hold]
    exact Vector.getElem_setIfInBounds_ne hlt' hne

end

/-! ## A table of the schedule -/

section
variable {α : Type} [Inhabited α] {words : ℕ → α} {N i : ℕ} {W : Vector α N}

/-- The table holds the words before the word `i`, or the first 16 words. -/
def Filled (words : ℕ → α) (W : Vector α N) (i : ℕ) : Prop := ∀ t < max i 16, W[t]! = words t

theorem Filled.get (h : Filled words W i) {t : ℕ} (ht : t < i) : W[t]! = words t := h t (lt_max_of_lt_left ht)

theorem Filled.skip (h : Filled words W i) (hi : i < 16) : Filled words W (i + 1) :=
  fun t ht => h t (by omega)

/-- **The next word is added.** -/
theorem Filled.push (h : Filled words W i) (hi : 16 ≤ i) (hN : i < N) :
    Filled words (W.set! i (words i)) (i + 1) := by
  intro t ht
  by_cases htime : t = i
  · rw [htime, getElem!_pos (W.set! i (words i)) i hN]
    exact Vector.getElem_setIfInBounds_self hN
  · have hlt : t < i := by omega
    have hbound : t < N := by omega
    rw [← h.get hlt, getElem!_pos W t hbound, getElem!_pos (W.set! i (words i)) t hbound]
    exact Vector.getElem_setIfInBounds_ne hbound fun h => htime h.symm

/-- The additions of a loop. -/
theorem Filled.steps {add : Vector α N → ℕ → Vector α N} {n : ℕ}
    (hadd : ∀ W j, i ≤ j → j < i + n → Filled words W j → Filled words (add W j) (j + 1)) (h : Filled words W i) :
    Filled words (rounds (fun j V => add V (i + j)) W n) (i + n) := by
  induction n with
  | zero => exact h
  | succ n ih =>
    have hsome := ih fun V j hle hlt => hadd V j hle (by omega)
    exact hadd _ (i + n) (by omega) (by omega) hsome

end

end Compression
