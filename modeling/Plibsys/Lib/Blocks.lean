/-
  Folding a function over the blocks of a list.

  `chain f n a xs k` is the result after the first `k` blocks of `n` elements of `xs`; what
  follows them does not matter.
-/
import Mathlib.Data.Nat.Notation
import Mathlib.Tactic.Common

namespace Blocks

variable {α β : Type} (f : β → List α → β) (n : ℕ)

/-- The `i`-th block of `n` elements. -/
def block (xs : List α) (i : ℕ) : List α := (xs.drop (n * i)).take n

/-- Fold `f` over the first `k` blocks. -/
def chain (a : β) (xs : List α) : ℕ → β
  | 0 => a
  | k + 1 => f (chain a xs k) (block n xs k)

variable {f n} {a : β} {xs ys zs : List α} {i k : ℕ}

theorem length_block (h : n * (i + 1) ≤ xs.length) : (block n xs i).length = n := by
  rw [Nat.mul_succ] at h
  rw [block, List.length_take, List.length_drop]
  omega

/-- The block behind the first `i` ones. -/
theorem block_append (hys : ys.length = n * i) (hzs : zs.length = n) (xs : List α) :
    block n (ys ++ zs ++ xs) i = zs := by
  rw [block, List.append_assoc, ← hys, List.drop_left, ← hzs, List.take_left]

theorem block_append_left (h : n * (i + 1) ≤ xs.length) : block n (xs ++ ys) i = block n xs i := by
  rw [Nat.mul_succ] at h
  rw [block, block, List.drop_append_of_le_length (by omega), List.take_append_of_le_length]
  rw [List.length_drop]
  omega

/-- More elements do not change the first blocks. -/
theorem chain_append (h : n * k ≤ xs.length) : chain f n a (xs ++ ys) k = chain f n a xs k := by
  induction k with
  | zero => rfl
  | succ k ih =>
    have hle : n * k ≤ xs.length := Nat.le_trans (Nat.mul_le_mul_left n (Nat.le_succ k)) h
    rw [chain, chain, ih hle, block_append_left h]

/-- One more block. -/
theorem chain_succ (hys : ys.length = n * k) (hzs : zs.length = n) (xs : List α) :
    chain f n a (ys ++ zs ++ xs) (k + 1) = f (chain f n a ys k) zs := by
  rw [chain, block_append hys hzs, List.append_assoc, chain_append (Nat.le_of_eq hys.symm)]

/-- The blocks of a second list, after those of the first one. -/
theorem chain_add (hxs : xs.length = n * k) (ys : List α) (j : ℕ) :
    chain f n a (xs ++ ys) (k + j) = chain f n (chain f n a xs k) ys j := by
  induction j with
  | zero => exact chain_append (Nat.le_of_eq hxs.symm)
  | succ j ih =>
    have hblock : block n (xs ++ ys) (k + j) = block n ys j := by
      rw [block, Nat.mul_add, ← hxs, List.drop_length_add_append, block]
    rw [← Nat.add_assoc, chain, ih, hblock, chain]

/-- The blocks of concatenated blocks. -/
theorem block_flatMap {f : β → List α} (hf : ∀ b, (f b).length = n) {bs : List β} (hi : i < bs.length) :
    block n (bs.flatMap f) i = f bs[i] := by
  induction bs generalizing i with
  | nil => cases hi
  | cons b bs ih =>
    rw [List.flatMap_cons, block]
    cases i with
    | zero => rw [Nat.mul_zero, List.drop_zero, ← hf b, List.take_left]; rfl
    | succ i =>
      rw [Nat.mul_succ, Nat.add_comm, ← hf b, List.drop_length_add_append, hf b]
      exact ih (Nat.lt_of_succ_lt_succ hi)

end Blocks
