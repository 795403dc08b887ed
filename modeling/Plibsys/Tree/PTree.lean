/-
  The tree object (`ptree.c`).

  A `PTree` is one of three types, which fixes the functions it calls on its root and
  the fields its nodes have.  The pointers to a `PTree` and to a callback are not
  `NULL` here.
-/
import Plibsys.Tree.Bst
import Plibsys.Tree.Rb
import Plibsys.Tree.Avl

namespace Plibsys

open Looping Linked

inductive PTreeType where
  | binary
  | rb
  | avl
  deriving DecidableEq, Repr

/-- The fields a node of the tree type has after the base node. -/
def PTreeType.Ext : PTreeType → Type
  | .binary => Unit
  | .rb => ParentExt PTreeRBColor
  | .avl => ParentExt pint

/-- A `PTree`: the functions that depend on the type are given by `type`, the root is the one
    of `mem`. -/
structure PTree (type : PTreeType) (ω : Type) where
  mem : Mem type.Ext ω
  key_destroy_func : Option (PDestroyFunc ω)
  value_destroy_func : Option (PDestroyFunc ω)
  compare_func : PCompareDataFunc
  nnodes : pint

section
variable {type : PTreeType} {ω : Type} (fuel : ℕ)

/-- `tree->insert_node_func`. -/
def insertNodeFunc : (type : PTreeType) → PCompareDataFunc → Option (PDestroyFunc ω) →
    Option (PDestroyFunc ω) → (key value mem : ppointer) → TreeM type.Ext ω Bool
  | .binary => pTreeBstInsert fuel
  | .rb => pTreeRbInsert fuel
  | .avl => pTreeAvlInsert fuel

/-- `tree->remove_node_func`. -/
def removeNodeFunc : (type : PTreeType) → PCompareDataFunc → Option (PDestroyFunc ω) →
    Option (PDestroyFunc ω) → (key : ppointer) → TreeM type.Ext ω Bool
  | .binary => pTreeBstRemove fuel
  | .rb => pTreeRbRemove fuel
  | .avl => pTreeAvlRemove fuel

/-- `p_tree_new_full` with a valid type and a compare function, the allocation of the object
    succeeding; `world` is the outside world at that time. -/
def pTreeNewFull (type : PTreeType) (func : PCompareDataFunc)
    (key_destroy value_destroy : Option (PDestroyFunc ω)) (cell : ppointer → Option (PTreeBaseNode type.Ext))
    (world : ω) : PTree type ω where
  mem := { root := NULL, cell := cell, world := world }
  key_destroy_func := key_destroy
  value_destroy_func := value_destroy
  compare_func := func
  nnodes := 0

def pTreeInsert (tree : PTree type ω) (key value mem : ppointer) : Option (PTree type ω) := do
  let (result, m) ← (insertNodeFunc fuel type tree.compare_func tree.key_destroy_func
    tree.value_destroy_func key value mem).run tree.mem
  if result then
    return { tree with mem := m, nnodes := tree.nnodes + 1 }
  return { tree with mem := m }

def pTreeRemove (tree : PTree type ω) (key : ppointer) : Option (Bool × PTree type ω) := do
  if tree.mem.root = NULL then
    return (false, tree)
  let (result, m) ← (removeNodeFunc fuel type tree.compare_func tree.key_destroy_func
    tree.value_destroy_func key).run tree.mem
  if result then
    return (result, { tree with mem := m, nnodes := tree.nnodes - 1 })
  return (result, { tree with mem := m })

def pTreeLookup (tree : PTree type ω) (key : ppointer) : Option ppointer := do
  let (cur_node, m) ← (findNode fuel tree.compare_func key tree.mem.root).run tree.mem
  if cur_node = NULL then
    return NULL
  let (n, _) ← (deref cur_node).run m
  return n.value

section
variable {E : Type}

/-- `while (prev_node->right != NULL && prev_node->right != cur_node)
    prev_node = prev_node->right`. -/
def findPrev (cur_node prev_node : ppointer) : TreeM E ω ppointer :=
  loop (fun prev_node => do
    if (← right prev_node) ≠ NULL ∧ (← right prev_node) ≠ cur_node then
      return .next (← right prev_node)
    else
      return .done prev_node) fuel prev_node

/-- `if (need_stop == FALSE) need_stop = traverse_func (node->key, node->value, user_data)`. -/
def visit (traverse_func : PTraverseFunc ω) (node : ppointer) (need_stop : pboolean) :
    TreeM E ω pboolean := do
  if need_stop ≠ FALSE then
    return need_stop
  let n ← deref node
  fun s =>
    let (need_stop, world) := traverse_func n.key n.value s.world
    some (need_stop, s.withWorld world)

/-- One round of the loop of `p_tree_foreach`; its state is `cur_node`, `mod_counter` and
    `need_stop`. -/
def pTreeForeachStep (traverse_func : PTraverseFunc ω) :
    ppointer × pint × pboolean → TreeM E ω (Iter (ppointer × pint × pboolean) Unit)
  | (cur_node, mod_counter, need_stop) => do
    if cur_node = NULL then
      return .done ()
    if (← left cur_node) = NULL then
      let need_stop ← visit traverse_func cur_node need_stop
      return .next (← right cur_node, mod_counter, need_stop)
    else
      let prev_node ← findPrev fuel cur_node (← left cur_node)
      if (← right prev_node) = NULL then
        setRight prev_node cur_node
        return .next (← left cur_node, mod_counter + 1, need_stop)
      else
        let need_stop ← visit traverse_func cur_node need_stop
        let cur_node ← right cur_node
        setRight prev_node NULL
        let mod_counter := mod_counter - 1
        if need_stop = TRUE ∧ mod_counter = 0 then
          return .done ()
        return .next (cur_node, mod_counter, need_stop)

/-- One round of the loop of `p_tree_clear`; its state is `cur_node` and `tree->nnodes`. -/
def pTreeClearStep (key_destroy_func value_destroy_func : Option (PDestroyFunc ω)) :
    ppointer × pint → TreeM E ω (Iter (ppointer × pint) pint)
  | (cur_node, nnodes) => do
    if cur_node = NULL then
      return .done nnodes
    if (← left cur_node) = NULL then
      let next_node ← right cur_node
      destroy key_destroy_func (← deref cur_node).key
      destroy value_destroy_func (← deref cur_node).value
      free cur_node
      return .next (next_node, nnodes - 1)
    else
      let prev_node ← findRightmost fuel (← left cur_node)
      setRight prev_node cur_node
      let next_node ← left cur_node
      setLeft cur_node NULL
      return .next (next_node, nnodes)

end

def pTreeForeach (tree : PTree type ω) (traverse_func : PTraverseFunc ω) : Option (PTree type ω) := do
  if tree.mem.root = NULL then
    return tree
  let (_, m) ← (loop (pTreeForeachStep fuel traverse_func) fuel (tree.mem.root, 0, FALSE)).run tree.mem
  return { tree with mem := m }

def pTreeClear (tree : PTree type ω) : Option (PTree type ω) := do
  if tree.mem.root = NULL then
    return tree
  let (nnodes, m) ← (loop (pTreeClearStep fuel tree.key_destroy_func tree.value_destroy_func) fuel
    (tree.mem.root, tree.nnodes)).run tree.mem
  return { tree with mem := m.withRoot NULL, nnodes := nnodes }

def pTreeGetNnodes (tree : PTree type ω) : pint := tree.nnodes

end

end Plibsys
