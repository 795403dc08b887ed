/-
  Singly linked lists in memory (`plist.c`).

  A function works on the memory of the nodes and on the outside world, to which the callbacks belong.  It fails
  (`none`) when it dereferences `NULL` or an address that holds no node, or frees one, and when a loop does
  not end within its bound `fuel`.
-/
import Plibsys.Lib.LinkedChain
import Plibsys.Lib.Loop
import Plibsys.Types

namespace Plibsys.Lists

open Looping Chains

/-- `struct PList_`. -/
abbrev PList := Cell ppointer

/-- The nodes, the number of allocations made so far, and the world. -/
structure ListMem (ω : Type) where
  cells : ppointer → Option PList
  mallocs : ℕ
  world : ω

abbrev ListM (ω : Type) := StateT (ListMem ω) Option

/-- The allocator of the system: the address that it gives for an allocation, or `NULL`. -/
abbrev Malloc := ℕ → (ppointer → Option PList) → ppointer

abbrev PFunc (ω : Type) := ppointer → ppointer → ω → ω

section
variable {ω : Type}

/-! ## Memory accesses -/

def ListMem.store (m : ListMem ω) (p : ppointer) (n : Option PList) : ListMem ω :=
  { m with cells := Function.update m.cells p n }

def deref (p : ppointer) : ListM ω PList := fun m => if p = NULL then none else (m.cells p).map fun n => (n, m)

def data (p : ppointer) : ListM ω ppointer := do return (← deref p).data

def next (p : ppointer) : ListM ω ppointer := do return (← deref p).next

def setNext (p q : ppointer) : ListM ω Unit := do
  let n ← deref p
  modify fun m => m.store p (some { n with next := q })

def setData (p d : ppointer) : ListM ω Unit := do
  let n ← deref p
  modify fun m => m.store p (some { n with data := d })

def pFree (p : ppointer) : ListM ω Unit := do
  let _ ← deref p
  modify fun m => m.store p none

/-- `p_malloc0 (sizeof (PList))`. -/
def pMalloc0 (malloc : Malloc) : ListM ω ppointer := fun m =>
  let p := malloc m.mallocs m.cells
  let m := { m with mallocs := m.mallocs + 1 }
  some (p, if p = NULL then m else m.store p (some ⟨NULL, NULL⟩))

/-- `func (data, user_data)`. -/
def callback (func : PFunc ω) (d user_data : ppointer) : ListM ω Unit :=
  modify fun m => { m with world := func d user_data m.world }

/-! ## The functions -/

/-- `for (cur = list; cur->next != NULL; cur = cur->next)`, in `p_list_append` and `p_list_last`. -/
def lastStep (cur : ppointer) : ListM ω (Iter ppointer ppointer) := do
  let n ← next cur
  if n ≠ NULL then return .next n
  else return .done cur

def pListAppend (malloc : Malloc) (fuel : ℕ) (list d : ppointer) : ListM ω ppointer := do
  let item ← pMalloc0 malloc
  if item = NULL then
    return list
  setData item d
  if list = NULL then
    return item
  let cur ← loop lastStep fuel list
  setNext cur item
  return list

/-- The loop of `p_list_remove`, with `prev` and `cur`; the result is `head`. -/
def removeStep (list d : ppointer) : ppointer × ppointer → ListM ω (Iter (ppointer × ppointer) ppointer)
  | (prev, cur) =>
    if cur = NULL then return .done list
    else do
      if (← data cur) = d then
        if prev = NULL then
          let head ← next cur
          pFree cur
          return .done head
        else
          setNext prev (← next cur)
          pFree cur
          return .done list
      else
        return .next (cur, ← next cur)

def pListRemove (fuel : ℕ) (list d : ppointer) : ListM ω ppointer :=
  if list = NULL then return NULL
  else loop (removeStep list d) fuel (NULL, list)

def foreachStep (func : PFunc ω) (user_data cur : ppointer) : ListM ω (Iter ppointer Unit) :=
  if cur = NULL then return .done ()
  else do
    callback func (← data cur) user_data
    return .next (← next cur)

def pListForeach (fuel : ℕ) (list : ppointer) (func : Option (PFunc ω)) (user_data : ppointer) : ListM ω Unit :=
  match func with
  | none => return ()
  | some func =>
    if list = NULL then return ()
    else loop (foreachStep func user_data) fuel list

/-- The loop of `p_list_free`, with `next` and `cur`. -/
def freeStep : ppointer × ppointer → ListM ω (Iter (ppointer × ppointer) Unit)
  | (nxt, cur) =>
    if cur ≠ NULL ∧ nxt ≠ NULL then do
      let n ← next cur
      pFree cur
      return .next (n, n)
    else return .done ()

def pListFree (fuel : ℕ) (list : ppointer) : ListM ω Unit :=
  if list = NULL then return ()
  else loop freeStep fuel (list, list)

def pListLast (fuel : ℕ) (list : ppointer) : ListM ω ppointer :=
  if list = NULL then return NULL
  else loop lastStep fuel list

def lengthStep : ppointer × psize → ListM ω (Iter (ppointer × psize) psize)
  | (cur, ret) => do
    let n ← next cur
    if n ≠ NULL then return .next (n, ret + 1)
    else return .done ret

def pListLength (fuel : ℕ) (list : ppointer) : ListM ω psize :=
  if list = NULL then return 0
  else loop lengthStep fuel (list, 1)

def pListPrepend (malloc : Malloc) (list d : ppointer) : ListM ω ppointer := do
  let item ← pMalloc0 malloc
  if item = NULL then
    return list
  setData item d
  if list = NULL then
    return item
  setNext item list
  return item

/-- The loop of `p_list_reverse`, with `prev` and `cur`. -/
def reverseStep : ppointer × ppointer → ListM ω (Iter (ppointer × ppointer) ppointer)
  | (prev, cur) =>
    if cur ≠ NULL then do
      let tmp ← next cur
      setNext cur prev
      return .next (cur, tmp)
    else return .done prev

def pListReverse (fuel : ℕ) (list : ppointer) : ListM ω ppointer :=
  if list = NULL then return NULL
  else do
    let cur ← next list
    setNext list NULL
    loop reverseStep fuel (list, cur)

end

end Plibsys.Lists
