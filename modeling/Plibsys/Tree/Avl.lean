/-
  The AVL tree (`ptree-avl.c`).
-/
import Plibsys.Tree.Node

namespace Plibsys

open Looping Linked

variable {ω : Type}

abbrev PTreeAVLNode := PTreeBaseNode (ParentExt pint)

abbrev AvlM (ω : Type) := TreeM (ParentExt pint) ω

/-- The balance factor of a node whose subtree on the side `d` is one higher than the other. -/
def sideBalance (d : Side) : pint :=
  match d with
  | .left => 1
  | .right => -1

/-- The rotation that lifts `node` over its parent towards the side `d`. -/
def ppTreeAvlRotate (d : Side) (node : ppointer) : AvlM ω Unit := do
  setChild d.other (← parent node) (← child d node)
  reparent (← child d node) (← parent node)
  setChild d node (← parent node)
  setParent node (← parent (← child d node))
  setParent (← child d node) node
  relinkOrRoot (← parent node) (← child d node) node
  -- Restore balance factor
  setTag node ((← tag node) + sideBalance d)
  setTag (← child d node) (-(← tag node))

def ppTreeAvlRotateLeft (node : ppointer) : AvlM ω Unit := ppTreeAvlRotate .left node

def ppTreeAvlRotateRight (node : ppointer) : AvlM ω Unit := ppTreeAvlRotate .right node

/-- The end of a double rotation: the balance factors of `tmp_node` and its children. -/
def ppTreeAvlRestoreBalance2 (tmp_node : ppointer) : AvlM ω Unit := do
  if (← tag tmp_node) = 1 then
    setTag (← left tmp_node) 0
    setTag (← right tmp_node) (-1)
  else if (← tag tmp_node) = -1 then
    setTag (← left tmp_node) 1
    setTag (← right tmp_node) 0
  else
    setTag (← left tmp_node) 0
    setTag (← right tmp_node) 0
  setTag tmp_node 0

/-- The double rotation of `node`, the child of its parent on the side `d`. -/
def ppTreeAvlRotate2 (d : Side) (node : ppointer) : AvlM ω Unit := do
  let tmp_node ← child d.other node
  setChild d.other node (← child d tmp_node)
  reparent (← child d.other node) node
  setParent tmp_node (← parent (← parent node))
  relinkOrRoot (← parent tmp_node) (← parent node) tmp_node
  setChild d (← parent node) (← child d.other tmp_node)
  reparent (← child d (← parent node)) (← parent node)
  setChild d.other tmp_node (← parent node)
  setParent (← child d.other tmp_node) tmp_node
  setChild d tmp_node node
  setParent node tmp_node
  -- Restore balance factor
  ppTreeAvlRestoreBalance2 tmp_node

def ppTreeAvlRotateLeftRight (node : ppointer) : AvlM ω Unit := ppTreeAvlRotate2 .left node

def ppTreeAvlRotateRightLeft (node : ppointer) : AvlM ω Unit := ppTreeAvlRotate2 .right node

/-- One round of `pp_tree_avl_balance_insert` at a node on the side `d` of its parent. -/
def ppTreeAvlBalanceInsertSide (d : Side) (node par : ppointer) : AvlM ω (Iter ppointer Unit) := do
  if (← tag par) = sideBalance d then
    if (← tag node) = -sideBalance d then
      -- Case 1: Left-right (right-left) rotate
      ppTreeAvlRotate2 d node
    else
      -- Case 2: Right (left) rotate
      ppTreeAvlRotate d.other node
    return .done ()
  else if (← tag par) = -sideBalance d then
    -- Case 3: Increase (decrease) parent balance factor
    setTag par 0
    return .done ()
  else
    -- Case 4: Increase (decrease) parent balance factor
    setTag par (sideBalance d)
    return .next (← parent node)

def ppTreeAvlBalanceInsertStep (node : ppointer) : AvlM ω (Iter ppointer Unit) := do
  let par ← parent node
  if par = NULL then
    return .done ()
  if (← left par) = node then
    ppTreeAvlBalanceInsertSide .left node par
  else
    ppTreeAvlBalanceInsertSide .right node par

def ppTreeAvlBalanceInsert (fuel : ℕ) (node : ppointer) : AvlM ω Unit :=
  loop ppTreeAvlBalanceInsertStep fuel node

/-- One round of `pp_tree_avl_balance_remove` at a node on the side `d` of its parent. -/
def ppTreeAvlBalanceRemoveSide (d : Side) (node par : ppointer) : AvlM ω (Iter ppointer Unit) := do
  if (← tag par) = -sideBalance d then
    let sibling ← child d.other par
    let sibling_balance ← tag sibling
    if (← tag sibling) = sideBalance d then
      -- Case 1
      ppTreeAvlRotate2 d.other sibling
    else
      -- Case 2
      ppTreeAvlRotate d sibling
    if sibling_balance = 0 then
      return .done ()
    else
      return .next (← parent par)
  else if (← tag par) = 0 then
    -- Case 3
    setTag par (-sideBalance d)
    return .done ()
  else
    -- Case 4
    setTag par 0
    return .next (← parent node)

def ppTreeAvlBalanceRemoveStep (node : ppointer) : AvlM ω (Iter ppointer Unit) := do
  let par ← parent node
  if par = NULL then
    return .done ()
  if (← left par) = node then
    ppTreeAvlBalanceRemoveSide .left node par
  else
    ppTreeAvlBalanceRemoveSide .right node par

def ppTreeAvlBalanceRemove (fuel : ℕ) (node : ppointer) : AvlM ω Unit :=
  loop ppTreeAvlBalanceRemoveStep fuel node

section
variable (fuel : ℕ) (compare_func : PCompareDataFunc)
  (key_destroy_func value_destroy_func : Option (PDestroyFunc ω)) (key : ppointer)

/-- `mem` is what `p_malloc0` returns if it is called. -/
def pTreeAvlInsert (value mem : ppointer) : AvlM ω Bool := do
  let (cur_node, parent_node) ← findLink fuel compare_func key
  -- If we have existing one - replace a key-value pair
  if (← readLink cur_node) ≠ NULL then
    replacePair key key_destroy_func value_destroy_func value (← readLink cur_node)
    return false
  writeLink mem cur_node
  if mem = NULL then
    return false
  newNode mem { left := NULL, right := NULL, key := key, value := value,
                ext := { parent := parent_node, tag := 0 } }
  -- Balance the tree
  ppTreeAvlBalanceInsert fuel (← readLink cur_node)
  return true

def pTreeAvlRemove : AvlM ω Bool := do
  let cur_node ← findNode fuel compare_func key (← getRoot)
  if cur_node = NULL then
    return false
  let cur_node ← markNode fuel cur_node
  let child_node ← onlyChild cur_node
  if child_node = NULL then
    ppTreeAvlBalanceRemove fuel cur_node
  let child_parent ← replaceNode cur_node child_node
  if child_node ≠ NULL then
    setParent child_node child_parent
    -- Balance the tree
    ppTreeAvlBalanceRemove fuel child_node
  freeNode key_destroy_func value_destroy_func cur_node
  return true

end

end Plibsys
