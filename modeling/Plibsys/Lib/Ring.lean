/-
  Sequences stored in a ring of cells.

  `slice N data pos n` is what the `n` cells from `pos` on contain, `fill N data pos xs`
  puts `xs` into the cells from `pos` on; both wrap at `N`.
-/
import Mathlib.Data.Nat.ModEq
import Mathlib.Logic.Function.Basic
import Mathlib.Tactic.Common

namespace Ring

variable {α : Type} (N : ℕ)

/-- The contents of `n` cells from `pos` on. -/
def slice (data : ℕ → α) (pos n : ℕ) : List α := (List.range n).map fun i => data ((pos + i) % N)

/-- The cells after `xs` is written from `pos` on. -/
def fill (data : ℕ → α) (pos : ℕ) : List α → ℕ → α
  | [] => data
  | x :: xs => fill (Function.update data (pos % N) x) (pos + 1) xs

variable {N} {data data' : ℕ → α} {pos m n i : ℕ} {xs : List α}

@[simp] theorem length_slice : (slice N data pos n).length = n := by simp [slice]

@[simp] theorem slice_zero : slice N data pos 0 = [] := rfl

theorem slice_mod : slice N data (pos % N) n = slice N data pos n := by
  simp [slice]

theorem slice_add : slice N data pos (m + n) = slice N data pos m ++ slice N data (pos + m) n := by
  simp only [slice, List.range_add, List.map_append, List.map_map]
  congr 1
  refine List.map_congr_left fun i _ => ?_
  simp [Nat.add_assoc]

theorem slice_succ : slice N data pos (n + 1) = data (pos % N) :: slice N data (pos + 1) n := by
  rw [Nat.add_comm, slice_add]
  rfl

theorem slice_congr (h : ∀ i < n, data' ((pos + i) % N) = data ((pos + i) % N)) :
    slice N data' pos n = slice N data pos n :=
  List.map_congr_left fun i hi => h i (List.mem_range.1 hi)

/-- Less than `N` steps apart, cells are different. -/
theorem add_mod_ne (hin : i < n) (hn : n < i + N) : (pos + i) % N ≠ (pos + n) % N := by
  intro he
  have h : i ≡ n [MOD N] := Nat.ModEq.add_left_cancel' pos he
  have hd : N ∣ n - i := (Nat.modEq_iff_dvd' (Nat.le_of_lt hin)).1 h
  have := Nat.le_of_dvd (by omega) hd
  omega

/-- Cells in front of those that are written keep their contents. -/
theorem fill_before (data : ℕ → α) (pos : ℕ) (hin : i < n) (hn : n + xs.length ≤ i + N) :
    fill N data (pos + n) xs ((pos + i) % N) = data ((pos + i) % N) := by
  induction xs generalizing data n with
  | nil => rfl
  | cons x xs ih =>
    rw [List.length_cons] at hn
    rw [fill, Nat.add_assoc, ih _ (by omega) (by omega), Function.update_of_ne]
    exact add_mod_ne hin (by omega)

/-- What is written can be read. -/
theorem slice_fill (data : ℕ → α) (pos : ℕ) (hn : xs.length ≤ N) :
    slice N (fill N data pos xs) pos xs.length = xs := by
  induction xs generalizing data pos with
  | nil => rfl
  | cons x xs ih =>
    rw [List.length_cons] at hn ⊢
    have hhead := fill_before (Function.update data (pos % N) x) pos (i := 0) (n := 1) (by omega)
      (show 1 + xs.length ≤ 0 + N by omega)
    rw [slice_succ, fill, ih _ _ (by omega)]
    simp only [Nat.add_zero, Function.update_self] at hhead
    rw [hhead]

/-- What is written after a sequence is read after it. -/
theorem slice_fill_append (data : ℕ → α) (pos : ℕ) (hn : n + xs.length ≤ N) :
    slice N (fill N data (pos + n) xs) pos (n + xs.length) = slice N data pos n ++ xs := by
  rw [slice_add, slice_fill _ _ (by omega),
    slice_congr fun i hi => fill_before data pos hi (by omega)]

theorem fill_append (data : ℕ → α) (pos : ℕ) (xs : List α) (x : α) :
    fill N data pos (xs ++ [x]) = Function.update (fill N data pos xs) ((pos + xs.length) % N) x := by
  induction xs generalizing data pos with
  | nil => rfl
  | cons y xs ih =>
    rw [List.cons_append, fill, ih, fill, List.length_cons, Nat.add_assoc, Nat.add_comm 1]

theorem fill_mod (data : ℕ → α) (pos : ℕ) : fill N data (pos % N) xs = fill N data pos xs := by
  induction xs generalizing data pos with
  | nil => rfl
  | cons x xs ih => rw [fill, fill, ← ih _ (pos % N + 1), ← ih _ (pos + 1), Nat.mod_mod, Nat.mod_add_mod]

end Ring
