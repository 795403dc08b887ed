/-
  Strings in buffers, as C copies and appends them.

  A buffer is a list of bytes, and the string in it ends before the first NUL.
-/
import Mathlib.Data.List.TakeWhile

namespace CStrings

/-- The string in a buffer. -/
def string (buffer : List UInt8) : List UInt8 := buffer.takeWhile (· ≠ 0)

/-- Write a string and a NUL over the beginning of a buffer. -/
def strcpy (buffer src : List UInt8) : List UInt8 :=
  string src ++ 0 :: buffer.drop ((string src).length + 1)

/-- Write a string and a NUL over the end of the one in a buffer. -/
def strcat (buffer src : List UInt8) : List UInt8 :=
  string buffer ++ string src ++ 0 :: buffer.drop ((string buffer ++ string src).length + 1)

variable {s t : List UInt8}

theorem ne_of_notMem (h : 0 ∉ s) (c : UInt8) (hc : c ∈ s) : decide (c ≠ 0) = true :=
  decide_eq_true fun h0 => h (h0 ▸ hc)

theorem string_append_nul (h : 0 ∉ s) : string (s ++ 0 :: t) = s := by
  rw [string, List.takeWhile_append_of_pos (ne_of_notMem h)]
  exact List.append_nil s

theorem string_eq_self (h : 0 ∉ s) : string s = s := List.takeWhile_eq_self_iff.2 (ne_of_notMem h)

theorem nul_notMem_string (s : List UInt8) : 0 ∉ string s := by
  intro h
  have hne := List.mem_takeWhile_imp (p := fun c : UInt8 => decide (c ≠ 0)) h
  exact of_decide_eq_true hne rfl

variable (buffer src : List UInt8)

@[simp] theorem string_strcpy : string (strcpy buffer src) = string src :=
  string_append_nul (nul_notMem_string src)

@[simp] theorem string_strcat : string (strcat buffer src) = string buffer ++ string src := by
  refine string_append_nul fun h => ?_
  rcases List.mem_append.1 h with h | h
  · exact nul_notMem_string buffer h
  · exact nul_notMem_string src h

end CStrings
