/-
  The unbalanced binary search tree (`ptree-bst.c`).
-/
import Plibsys.Tree.Node

namespace Plibsys

open Looping Linked

variable {ω : Type}

/-- `mem` is what `p_malloc0` returns if it is called. -/
def pTreeBstInsert (fuel : ℕ) (compare_func : PCompareDataFunc)
    (key_destroy_func value_destroy_func : Option (PDestroyFunc ω)) (key value mem : ppointer) :
    TreeM Unit ω Bool := do
  let (cur_node, _) ← findLink fuel compare_func key
  if (← readLink cur_node) = NULL then
    writeLink mem cur_node
    if mem = NULL then
      return false
    newNode mem { left := NULL, right := NULL, key := key, value := value, ext := () }
    return true
  else
    replacePair key key_destroy_func value_destroy_func value (← readLink cur_node)
    return false

/-- One step of the walk to the predecessor. -/
def pTreeBstPrevStep : Link × ppointer → TreeM Unit ω (Iter (Link × ppointer) (Link × ppointer))
  | (node_pointer, prev_node) => do
    if (← right prev_node) ≠ NULL then
      return .next (.child .right prev_node, ← right prev_node)
    else
      return .done (node_pointer, prev_node)

/-- The predecessor, the last node below the left child, with the link to it. -/
def pTreeBstPrev (fuel : ℕ) (cur_node : ppointer) : TreeM Unit ω (Link × ppointer) := do
  loop pTreeBstPrevStep fuel (.child .left cur_node, ← left cur_node)

/-- The node to be removed, with the link to it (see `markNode`). -/
def pTreeBstMark (fuel : ℕ) (node_pointer : Link) (cur_node : ppointer) :
    TreeM Unit ω (Link × ppointer) := do
  if (← left cur_node) ≠ NULL ∧ (← right cur_node) ≠ NULL then
    let (node_pointer, prev_node) ← pTreeBstPrev fuel cur_node
    setKeyValue cur_node (← deref prev_node).key (← deref prev_node).value
    return (node_pointer, prev_node)
  else
    return (node_pointer, cur_node)

def pTreeBstRemove (fuel : ℕ) (compare_func : PCompareDataFunc)
    (key_destroy_func value_destroy_func : Option (PDestroyFunc ω)) (key : ppointer) :
    TreeM Unit ω Bool := do
  let (node_pointer, _) ← findLink fuel compare_func key
  let cur_node ← readLink node_pointer
  if cur_node = NULL then
    return false
  let (node_pointer, cur_node) ← pTreeBstMark fuel node_pointer cur_node
  writeLink (← onlyChild cur_node) node_pointer
  freeNode key_destroy_func value_destroy_func cur_node
  return true

end Plibsys
