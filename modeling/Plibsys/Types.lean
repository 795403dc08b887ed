/-
  The basic types (`ptypes.h`, `perror.h`, `perrortypes.h`).

  A pointer is an address, `NULL` is address 0.  The integer types have fixed widths and
  their arithmetic wraps; `psize` and `pssize` are those of a 64-bit platform.
-/
import Mathlib.Algebra.Group.Int.Defs
import Mathlib.Algebra.Group.Nat.Defs
import Mathlib.Data.Int.Notation
import Mathlib.Data.Nat.Notation

namespace Plibsys

abbrev ppointer := ℕ

abbrev NULL : ppointer := 0

abbrev pint := Int32

/-- Any value other than `FALSE` counts as true where it is not compared with `TRUE`. -/
abbrev pboolean := pint

abbrev FALSE : pboolean := 0

abbrev TRUE : pboolean := 1

theorem true_ne_false : TRUE ≠ FALSE := by decide

abbrev puint := UInt32

abbrev psize := UInt64

/-- The words of the hash functions are vectors of bits. -/
abbrev puint32 := BitVec 32

abbrev puint64 := BitVec 64

abbrev pssize := Int64

/-- The result of a comparison: only its sign is looked at. -/
abbrev PCompareDataFunc := ppointer → ppointer → ℤ

/-- A destroy notification acts on the world outside of the library. -/
abbrev PDestroyFunc (ω : Type) := ppointer → ω → ω

/-- A traverse callback acts on the outside world; `TRUE` stops the traversal. -/
abbrev PTraverseFunc (ω : Type) := ppointer → ppointer → ω → pboolean × ω

/-- The error codes of inter-process communication. -/
inductive PErrorIPC where
  | none
  | access
  | exists
  | notExists
  | noResources
  | overflow
  | nameTooLong
  | invalidArgument
  | notImplemented
  | deadlock
  | failed
  deriving DecidableEq, Repr

/-- An error report. -/
structure PError where
  code : PErrorIPC
  native_code : pint
  message : String
  deriving DecidableEq, Repr

inductive PSemaphoreAccessMode where
  | open
  | create
  deriving DecidableEq, Repr

inductive PShmAccessPerms where
  | readonly
  | readwrite
  deriving DecidableEq, Repr

end Plibsys
