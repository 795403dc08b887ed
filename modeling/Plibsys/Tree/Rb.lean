/-
  The red-black tree (`ptree-rb.c`).
-/
import Plibsys.Tree.Node

namespace Plibsys

open Looping Linked

variable {ω : Type}

inductive PTreeRBColor where
  | red
  | black
  deriving DecidableEq, Repr

abbrev PTreeRBNode := PTreeBaseNode (ParentExt PTreeRBColor)

abbrev RbM (ω : Type) := TreeM (ParentExt PTreeRBColor) ω

def ppTreeRbIsBlack (node : ppointer) : RbM ω Bool := do
  if node = NULL then
    return true
  return (← tag node) = .black

def ppTreeRbIsRed (node : ppointer) : RbM ω Bool := do
  return (← tag node) = .red

def ppTreeRbGetGparent (node : ppointer) : RbM ω ppointer := do
  parent (← parent node)

def ppTreeRbGetUncle (node : ppointer) : RbM ω ppointer := do
  let gparent ← ppTreeRbGetGparent node
  if (← left gparent) = (← parent node) then
    right gparent
  else
    left gparent

def ppTreeRbGetSibling (node : ppointer) : RbM ω ppointer := do
  if (← left (← parent node)) = node then
    right (← parent node)
  else
    left (← parent node)

/-- The rotation at `node` towards the side `d`. -/
def ppTreeRbRotate (d : Side) (node : ppointer) : RbM ω Unit := do
  let tmp_node ← child d.other node
  relinkParent (← parent node) node tmp_node
  setChild d.other node (← child d tmp_node)
  reparent (← child d tmp_node) node
  setChild d tmp_node node
  setParent tmp_node (← parent node)
  setParent node tmp_node
  if (← parent tmp_node) = NULL then
    setRoot tmp_node

def ppTreeRbRotateLeft (node : ppointer) : RbM ω Unit := ppTreeRbRotate .left node

def ppTreeRbRotateRight (node : ppointer) : RbM ω Unit := ppTreeRbRotate .right node

/-- The rotations of `pp_tree_rb_balance_insert` when the parent is the child of `gparent` on the
    side `d`. -/
def ppTreeRbBalanceInsertRotate (d : Side) (node gparent : ppointer) : RbM ω Unit := do
  -- Case 4: rotate at parent
  let node ← if node = (← child d.other (← parent node)) then do
      ppTreeRbRotate d (← parent node)
      child d node
    else pure node
  setTag gparent .red
  setTag (← parent node) .black
  -- Case 5: rotate at gparent
  ppTreeRbRotate d.other gparent

/-- One round of `pp_tree_rb_balance_insert`. -/
def ppTreeRbBalanceInsertStep (node : ppointer) : RbM ω (Iter ppointer Unit) := do
  -- Case 1: we are at the root
  if (← parent node) = NULL then
    setTag node .black
    return .done ()
  -- Case 2: we have a black parent
  if ← ppTreeRbIsBlack (← parent node) then
    return .done ()
  let uncle ← ppTreeRbGetUncle node
  let gparent ← ppTreeRbGetGparent node
  -- Case 3: both parent and uncle are red, flip colors
  if ← (if uncle ≠ NULL then ppTreeRbIsRed uncle else pure false) then
    setTag (← parent node) .black
    setTag uncle .black
    setTag gparent .red
    return .next gparent
  if (← parent node) = (← left gparent) then
    ppTreeRbBalanceInsertRotate .left node gparent
  else
    ppTreeRbBalanceInsertRotate .right node gparent
  return .done ()

def ppTreeRbBalanceInsert (fuel : ℕ) (node : ppointer) : RbM ω Unit :=
  loop ppTreeRbBalanceInsertStep fuel node

/-- Case 2 of `pp_tree_rb_balance_remove`: left (right) rotate at parent; the result is the new
    sibling. -/
def ppTreeRbBalanceRemoveCase2 (node sibling : ppointer) : RbM ω ppointer := do
  setTag (← parent node) .red
  setTag sibling .black
  if node = (← left (← parent node)) then
    ppTreeRbRotateLeft (← parent node)
  else
    ppTreeRbRotateRight (← parent node)
  ppTreeRbGetSibling node

/-- Case 3: sibling (parent) color flip. -/
def ppTreeRbBalanceRemoveCase3 (node sibling : ppointer) : RbM ω (Iter ppointer Unit) := do
  setTag sibling .red
  if ← ppTreeRbIsBlack (← parent node) then
    return .next (← parent node)
  else
    setTag (← parent node) .black
    return .done ()

/-- Case 4: right (left) rotate at sibling; the result is the new sibling. -/
def ppTreeRbBalanceRemoveCase4 (node sibling : ppointer) : RbM ω ppointer := do
  if node = (← left (← parent node)) ∧ (← ppTreeRbIsBlack (← right sibling)) then
    setTag sibling .red
    setTag (← left sibling) .black
    ppTreeRbRotateRight sibling
    ppTreeRbGetSibling node
  else if node = (← right (← parent node)) ∧ (← ppTreeRbIsBlack (← left sibling)) then
    setTag sibling .red
    setTag (← right sibling) .black
    ppTreeRbRotateLeft sibling
    ppTreeRbGetSibling node
  else
    return sibling

/-- Case 5: left (right) rotate at parent and color flips. -/
def ppTreeRbBalanceRemoveCase5 (node sibling : ppointer) : RbM ω Unit := do
  setTag sibling (← tag (← parent node))
  setTag (← parent node) .black
  if node = (← left (← parent node)) then
    setTag (← right sibling) .black
    ppTreeRbRotateLeft (← parent node)
  else
    setTag (← left sibling) .black
    ppTreeRbRotateRight (← parent node)

/-- Cases 3 to 5, the sibling being black. -/
def ppTreeRbBalanceRemoveBlack (node sibling : ppointer) : RbM ω (Iter ppointer Unit) := do
  if (← ppTreeRbIsBlack (← left sibling)) ∧ (← ppTreeRbIsBlack (← right sibling)) then
    ppTreeRbBalanceRemoveCase3 node sibling
  else
    let sibling ← ppTreeRbBalanceRemoveCase4 node sibling
    ppTreeRbBalanceRemoveCase5 node sibling
    return .done ()

/-- One round of `pp_tree_rb_balance_remove`. -/
def ppTreeRbBalanceRemoveStep (node : ppointer) : RbM ω (Iter ppointer Unit) := do
  -- Case 1: we are at the root
  if (← parent node) = NULL then
    return .done ()
  let sibling ← ppTreeRbGetSibling node
  let sibling ← if ← ppTreeRbIsRed sibling then ppTreeRbBalanceRemoveCase2 node sibling
    else pure sibling
  ppTreeRbBalanceRemoveBlack node sibling

def ppTreeRbBalanceRemove (fuel : ℕ) (node : ppointer) : RbM ω Unit :=
  loop ppTreeRbBalanceRemoveStep fuel node

section
variable (fuel : ℕ) (compare_func : PCompareDataFunc)
  (key_destroy_func value_destroy_func : Option (PDestroyFunc ω)) (key : ppointer)

/-- `mem` is what `p_malloc0` returns if it is called. -/
def pTreeRbInsert (value mem : ppointer) : RbM ω Bool := do
  let (cur_node, parent_node) ← findLink fuel compare_func key
  -- If we have existing one - replace a key-value pair
  if (← readLink cur_node) ≠ NULL then
    replacePair key key_destroy_func value_destroy_func value (← readLink cur_node)
    return false
  writeLink mem cur_node
  if mem = NULL then
    return false
  newNode mem { left := NULL, right := NULL, key := key, value := value,
                ext := { parent := parent_node, tag := .red } }
  -- Balance the tree
  ppTreeRbBalanceInsert fuel (← readLink cur_node)
  return true

def pTreeRbRemove : RbM ω Bool := do
  let cur_node ← findNode fuel compare_func key (← getRoot)
  if cur_node = NULL then
    return false
  let cur_node ← markNode fuel cur_node
  let child_node ← onlyChild cur_node
  if child_node = NULL ∧ (← ppTreeRbIsBlack cur_node) then
    ppTreeRbBalanceRemove fuel cur_node
  let child_parent ← replaceNode cur_node child_node
  if child_node ≠ NULL then
    setParent child_node child_parent
    -- Check if we need to repaint the node
    if ← ppTreeRbIsBlack cur_node then
      setTag child_node .black
  freeNode key_destroy_func value_destroy_func cur_node
  return true

end

end Plibsys
