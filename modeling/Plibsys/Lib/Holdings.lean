/-
  What a program has acquired and not yet released.

  A release, or a use, of something that is not held makes the account unsound, and it stays so.
-/
import Mathlib.Data.Multiset.AddSub
import Mathlib.Data.Multiset.MapFold
import Mathlib.Data.Multiset.Range

namespace Resources

structure Holdings (R : Type) where
  held : Multiset R
  sound : Bool

namespace Holdings

variable {R : Type} [DecidableEq R] {X Y : Multiset R}

omit [DecidableEq R] in
/-- Nothing has been acquired. -/
def start : Holdings R := ⟨0, true⟩

omit [DecidableEq R] in
def acquire (h : Holdings R) (X : Multiset R) : Holdings R := { h with held := h.held + X }

def release (h : Holdings R) (X : Multiset R) : Holdings R := ⟨h.held - X, h.sound && decide (X ≤ h.held)⟩

def use (h : Holdings R) (X : Multiset R) : Holdings R := { h with sound := h.sound && decide (X ≤ h.held) }

theorem release_add (b : Bool) : (⟨X + Y, b⟩ : Holdings R).release X = ⟨Y, b⟩ := by
  have hrest : X + Y - X = Y := by
    rw [Multiset.add_comm, Multiset.add_sub_cancel_right]
  rw [release, decide_eq_true (Multiset.le_add_right X Y), Bool.and_true, hrest]

theorem use_of_le {h : Holdings R} (hX : X ≤ h.held) : h.use X = h := by
  rw [use, decide_eq_true hX, Bool.and_true]

@[simp] theorem use_zero (h : Holdings R) : h.use 0 = h := use_of_le (Multiset.zero_le _)

@[simp] theorem release_zero (h : Holdings R) : h.release 0 = h := by
  rw [release, decide_eq_true (Multiset.zero_le _), Bool.and_true, Multiset.sub_zero]

omit [DecidableEq R] in
@[simp] theorem acquire_zero (h : Holdings R) : h.acquire 0 = h := by
  rw [acquire, Multiset.add_zero]

end Holdings

end Resources
