/-
  Objects with names, and objects with numbers, as an operating system keeps them.

  A name refers to an object; removing the name leaves the object to those who have opened it.
-/
import Mathlib.Data.Nat.Notation
import Mathlib.Logic.Function.Basic

namespace Registries

/-- Objects with names in `N`; new objects have new numbers. -/
structure Registry (N V : Type) where
  names : N → Option ℕ
  value : ℕ → V
  next : ℕ
  fresh : ∀ n i, names n = some i → i < next

/-- Objects that are allocated and released. -/
structure Table (V : Type) where
  get : ℕ → Option V
  next : ℕ
  fresh : ∀ i, i ≥ next → get i = none

variable {N V : Type} [DecidableEq N]

namespace Registry

omit [DecidableEq N] in
/-- No objects. -/
def empty [Inhabited V] : Registry N V where
  names _ := none
  value _ := default
  next := 0
  fresh _ _ h := nomatch h

/-- A new object. -/
def create (r : Registry N V) (n : N) (v : V) : Registry N V where
  names := Function.update r.names n (some r.next)
  value := Function.update r.value r.next v
  next := r.next + 1
  fresh m i h := by
    by_cases hm : m = n
    · subst hm
      rw [Function.update_self] at h
      cases h
      exact Nat.lt_succ_self _
    · rw [Function.update_of_ne hm] at h
      exact Nat.lt_succ_of_lt (r.fresh m i h)

/-- The name is gone, the object stays. -/
def remove (r : Registry N V) (n : N) : Registry N V where
  names := Function.update r.names n none
  value := r.value
  next := r.next
  fresh m i h := by
    by_cases hm : m = n
    · subst hm
      rw [Function.update_self] at h
      cases h
    · rw [Function.update_of_ne hm] at h
      exact r.fresh m i h

/-- Change an object. -/
def set (r : Registry N V) (i : ℕ) (v : V) : Registry N V :=
  { r with value := Function.update r.value i v }

variable (r : Registry N V) (n : N) (v : V) {i : ℕ}

@[simp] theorem names_create : (r.create n v).names n = some r.next := Function.update_self ..

@[simp] theorem value_create : (r.create n v).value r.next = v := Function.update_self ..

@[simp] theorem names_remove : (r.remove n).names n = none := Function.update_self ..

@[simp] theorem value_remove : (r.remove n).value = r.value := rfl

omit [DecidableEq N] in
@[simp] theorem names_set : (r.set i v).names = r.names := rfl

omit [DecidableEq N] in
@[simp] theorem value_set : (r.set i v).value i = v := Function.update_self ..

end Registry

namespace Table

def empty : Table V where
  get _ := none
  next := 0
  fresh _ _ := rfl

def alloc (t : Table V) (v : V) : Table V where
  get := Function.update t.get t.next (some v)
  next := t.next + 1
  fresh i h := by
    rw [Function.update_of_ne (by omega)]
    exact t.fresh i (by omega)

def free (t : Table V) (i : ℕ) : Table V where
  get := Function.update t.get i none
  next := t.next
  fresh j h := by
    by_cases hj : j = i
    · subst hj
      exact Function.update_self ..
    · rw [Function.update_of_ne hj]
      exact t.fresh j h

def set (t : Table V) (i : ℕ) (v : V) : Table V where
  get j := if j = i then (t.get i).map fun _ => v else t.get j
  next := t.next
  fresh j h := by
    by_cases hj : j = i
    · rw [if_pos hj, t.fresh i (hj ▸ h)]
      rfl
    · rw [if_neg hj]
      exact t.fresh j h

variable (t : Table V) (v : V)

@[simp] theorem get_alloc : (t.alloc v).get t.next = some v := Function.update_self ..

end Table

end Registries
