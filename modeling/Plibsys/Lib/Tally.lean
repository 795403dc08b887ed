/-
  Sums over the threads of a configuration.

  A step changes the sum by what it changes at the place of its thread.
-/
import Mathlib.Algebra.BigOperators.Group.Finset.Piecewise
import Mathlib.Algebra.Order.BigOperators.Group.Finset
import Plibsys.Lib.Interleaving

namespace Interleaving

variable {ι S L : Type} [Fintype ι]

/-- The sum of what each place counts for. -/
def Config.tally (f : L → ℕ) (c : Config ι S L) : ℕ := ∑ i, f (c.loc i)

variable {f g : L → ℕ} {c : Config ι S L} {i : ι} {s : S} {l : L}

theorem sum_set [DecidableEq ι] {M : Type} [AddCommMonoid M] (f : L → M) (c : Config ι S L) (i : ι) (s : S)
    (l : L) :
    (∑ j, f ((c.set i s l).loc j)) + f (c.loc i) = (∑ j, f (c.loc j)) + f l := by
  have hi : i ∈ (Finset.univ : Finset ι) := Finset.mem_univ i
  rw [map_loc_set, Finset.sum_update_of_mem hi,
    Finset.sum_eq_add_sum_sdiff_singleton_of_mem hi fun j => f (c.loc j)]
  rw [add_comm (f l), add_comm (f (c.loc i)), add_right_comm]

theorem tally_set [DecidableEq ι] (f : L → ℕ) (c : Config ι S L) (i : ι) (s : S) (l : L) :
    (c.set i s l).tally f + f (c.loc i) = c.tally f + f l := by
  have hi : i ∈ (Finset.univ : Finset ι) := Finset.mem_univ i
  rw [Config.tally, Config.tally, map_loc_set, Finset.sum_update_of_mem hi,
    Finset.sum_eq_add_sum_sdiff_singleton_of_mem hi fun j => f (c.loc j)]
  omega

theorem tally_set_of_eq [DecidableEq ι] (s : S) (h : f l = f (c.loc i)) : (c.set i s l).tally f = c.tally f := by
  have := tally_set f c i s l
  omega

theorem tally_le_tally (h : ∀ l, f l ≤ g l) : c.tally f ≤ c.tally g := Finset.sum_le_sum fun i _ => h (c.loc i)

/-- A thread that counts shows in the sum. -/
theorem le_tally (f : L → ℕ) (c : Config ι S L) (i : ι) : f (c.loc i) ≤ c.tally f :=
  Finset.single_le_sum (f := fun j => f (c.loc j)) (fun _ _ => Nat.zero_le _) (Finset.mem_univ i)

/-- Only one thread counts. -/
theorem tally_eq_of_others (h : ∀ j, j ≠ i → f (c.loc j) = 0) : c.tally f = f (c.loc i) :=
  Finset.sum_eq_single i (fun j _ hj => h j hj) fun hi => absurd (Finset.mem_univ i) hi

theorem tally_eq_zero (h : ∀ i, f (c.loc i) = 0) : c.tally f = 0 := Finset.sum_eq_zero fun i _ => h i

/-- Two threads that count show in the sum. -/
theorem add_le_tally [DecidableEq ι] {j : ι} (h : i ≠ j) (f : L → ℕ) (c : Config ι S L) :
    f (c.loc i) + f (c.loc j) ≤ c.tally f := by
  rw [← Finset.sum_pair (f := fun i => f (c.loc i)) h]
  exact Finset.sum_le_sum_of_subset (Finset.subset_univ _)

/-- Each thread counts once at most. -/
theorem tally_le_card (hf : ∀ l, f l ≤ 1) : c.tally f ≤ Fintype.card ι := by
  have hle : c.tally f ≤ ∑ _i : ι, 1 := Finset.sum_le_sum fun j _ => hf (c.loc j)
  rwa [← Finset.card_eq_sum_ones, Finset.card_univ] at hle

/-- Each thread counts once at most, and one of them does not. -/
theorem tally_lt_card (hf : ∀ l, f l ≤ 1) (hi : f (c.loc i) = 0) : c.tally f < Fintype.card ι := by
  have hlt : c.tally f < ∑ _i : ι, 1 :=
    Finset.sum_lt_sum (fun j _ => hf (c.loc j)) ⟨i, Finset.mem_univ i, by rw [hi]; exact Nat.one_pos⟩
  rwa [← Finset.card_eq_sum_ones, Finset.card_univ] at hlt

/-- The number of the threads at some places. -/
theorem tally_eq_card (p : L → Prop) [DecidablePred p] (c : Config ι S L) :
    c.tally (fun l => if p l then 1 else 0) = (Finset.univ.filter fun i => p (c.loc i)).card :=
  (Finset.card_filter ..).symm

end Interleaving
