/-
  Tree nodes in memory (`ptree-private.h`) and the searches shared by the three
  tree types.

  A tree function works on the variable holding the root pointer, on the heap of
  nodes and on the outside world, to which the destroy notifications belong.  It
  fails (`none`) when it dereferences `NULL` or an address that holds no node, and
  when a loop does not end within its bound.
-/
import Plibsys.Types
import Plibsys.Lib.Loop
import Plibsys.Lib.LinkedStore

namespace Plibsys

open Looping Linked

/-- A `PTreeBaseNode`, followed by the fields `E` that the tree type adds to it. -/
structure PTreeBaseNode (E : Type) where
  left : ppointer
  right : ppointer
  key : ppointer
  value : ppointer
  ext : E
  deriving DecidableEq, Repr

/-- The fields of a `PTreeRBNode` or `PTreeAVLNode` after the base node: the parent and
    the colour or balance factor. -/
structure ParentExt (τ : Type) where
  parent : ppointer
  tag : τ
  deriving DecidableEq, Repr

/-- What a tree function can reach: `*root_node`, the nodes and the outside world. -/
structure Mem (E ω : Type) where
  root : ppointer
  cell : ppointer → Option (PTreeBaseNode E)
  world : ω

abbrev TreeM (E ω : Type) := StateT (Mem E ω) Option

section
variable {E τ ω : Type}

namespace Mem

/-- The node at `p`; there is none at `NULL`. -/
def get (s : Mem E ω) (p : ppointer) : Option (PTreeBaseNode E) :=
  if p = NULL then none else s.cell p

def store (s : Mem E ω) (p : ppointer) (n : Option (PTreeBaseNode E)) : Mem E ω :=
  { s with cell := Function.update s.cell p n }

/-- Overwrite fields of the node at `p`. -/
def modify (s : Mem E ω) (p : ppointer) (f : PTreeBaseNode E → PTreeBaseNode E) : Mem E ω :=
  s.store p ((s.cell p).map f)

def withRoot (s : Mem E ω) (p : ppointer) : Mem E ω := { s with root := p }

def withWorld (s : Mem E ω) (w : ω) : Mem E ω := { s with world := w }

end Mem

/-! ## Memory accesses -/

def deref (p : ppointer) : TreeM E ω (PTreeBaseNode E) := fun s => (s.get p).map fun n => (n, s)

/-- An assignment through the pointer `p`. -/
def assign (p : ppointer) (f : PTreeBaseNode E → PTreeBaseNode E) : TreeM E ω Unit := fun s =>
  (s.get p).map fun _ => ((), s.modify p f)

def getRoot : TreeM E ω ppointer := fun s => some (s.root, s)

def setRoot (p : ppointer) : TreeM E ω Unit := fun s => some ((), s.withRoot p)

def left (p : ppointer) : TreeM E ω ppointer := do return (← deref p).left
def right (p : ppointer) : TreeM E ω ppointer := do return (← deref p).right
def parent (p : ppointer) : TreeM (ParentExt τ) ω ppointer := do return (← deref p).ext.parent
def tag (p : ppointer) : TreeM (ParentExt τ) ω τ := do return (← deref p).ext.tag

def setLeft (p q : ppointer) : TreeM E ω Unit := assign p fun n => { n with left := q }
def setRight (p q : ppointer) : TreeM E ω Unit := assign p fun n => { n with right := q }

def setParent (p q : ppointer) : TreeM (ParentExt τ) ω Unit :=
  assign p fun n => { n with ext := { n.ext with parent := q } }

def setTag (p : ppointer) (x : τ) : TreeM (ParentExt τ) ω Unit :=
  assign p fun n => { n with ext := { n.ext with tag := x } }

/-- `node->key = key; node->value = value`. -/
def setKeyValue (p key value : ppointer) : TreeM E ω Unit :=
  assign p fun n => { n with key := key, value := value }

def child (d : Side) (p : ppointer) : TreeM E ω ppointer :=
  match d with
  | .left => left p
  | .right => right p

def setChild (d : Side) (p q : ppointer) : TreeM E ω Unit :=
  match d with
  | .left => setLeft p q
  | .right => setRight p q

/-- `p_malloc0` has returned the address `p` (not `NULL`): the zeroed node there, with the
    fields that are assigned before anything else is read. -/
def newNode (p : ppointer) (n : PTreeBaseNode E) : TreeM E ω Unit := fun s =>
  some ((), s.store p (some n))

/-- `p_free`; freeing what is not allocated is an error. -/
def free (p : ppointer) : TreeM E ω Unit := fun s => (s.get p).map fun _ => ((), s.store p none)

/-- `if (func != NULL) func (p)`. -/
def destroy (func : Option (PDestroyFunc ω)) (p : ppointer) : TreeM E ω Unit := fun s =>
  some ((), match func with
    | none => s
    | some f => s.withWorld (f p s.world))

/-- `if (parent->left == old) parent->left = new; else parent->right = new`. -/
def relink (par old new : ppointer) : TreeM E ω Unit := do
  if (← left par) = old then setLeft par new
  else setRight par new

/-- The link to `old` from its parent, if it has one, is set to `new`. -/
def relinkParent (par old new : ppointer) : TreeM E ω Unit := do
  if par ≠ NULL then relink par old new

/-- The link to `old`, from its parent or the root variable, is set to `new`. -/
def relinkOrRoot (par old new : ppointer) : TreeM E ω Unit := do
  if par ≠ NULL then relink par old new
  else setRoot new

/-- `if (node != NULL) node->parent = par`. -/
def reparent (node par : ppointer) : TreeM (ParentExt τ) ω Unit := do
  if node ≠ NULL then setParent node par

/-! ## Searching -/

/-- A `PTreeBaseNode **`: the address of the root variable or of a child link. -/
inductive Link where
  | root
  | child (d : Side) (p : ppointer)
  deriving DecidableEq, Repr

def readLink : Link → TreeM E ω ppointer
  | .root => getRoot
  | .child d p => child d p

def writeLink (q : ppointer) : Link → TreeM E ω Unit
  | .root => setRoot q
  | .child d p => setChild d p q

variable (fuel : ℕ) (compare_func : PCompareDataFunc) (key : ppointer)

/-- One round of the search loop of the insertions (and of `p_tree_bst_remove`). -/
def findLinkStep : Link × ppointer → TreeM E ω (Iter (Link × ppointer) (Link × ppointer))
  | (cur_node, parent_node) => do
    let cur ← readLink cur_node
    if cur = NULL then
      return .done (cur_node, parent_node)
    let cmp_result := compare_func key (← deref cur).key
    if cmp_result < 0 then
      return .next (.child .left cur, cur)
    else if cmp_result > 0 then
      return .next (.child .right cur, cur)
    else
      return .done (cur_node, parent_node)

/-- The link at which the search ends, and the last node passed, initially `*root_node`. -/
def findLink : TreeM E ω (Link × ppointer) := do
  loop (findLinkStep compare_func key) fuel (.root, ← getRoot)

/-- The search loop of `p_tree_lookup`, `p_tree_rb_remove` and `p_tree_avl_remove`: the node
    with the key, or `NULL`. -/
def findNode (cur_node : ppointer) : TreeM E ω ppointer :=
  loop (fun cur_node => do
    if cur_node = NULL then
      return .done NULL
    let cmp_result := compare_func key (← deref cur_node).key
    if cmp_result < 0 then
      return .next (← left cur_node)
    else if cmp_result > 0 then
      return .next (← right cur_node)
    else
      return .done cur_node) fuel cur_node

/-- `while (prev_node->right != NULL) prev_node = prev_node->right`. -/
def findRightmost (prev_node : ppointer) : TreeM E ω ppointer :=
  loop (fun prev_node => do
    if (← right prev_node) ≠ NULL then
      return .next (← right prev_node)
    else
      return .done prev_node) fuel prev_node

/-! ## Blocks that occur in several functions -/

variable (key_destroy_func value_destroy_func : Option (PDestroyFunc ω))

/-- An existing node gets a new key-value pair. -/
def replacePair (value cur : ppointer) : TreeM E ω Unit := do
  destroy key_destroy_func (← deref cur).key
  destroy value_destroy_func (← deref cur).value
  setKeyValue cur key value

/-- `cur_node->left == NULL ? cur_node->right : cur_node->left`. -/
def onlyChild (cur_node : ppointer) : TreeM E ω ppointer := do
  if (← left cur_node) = NULL then right cur_node else left cur_node

/-- The node to be removed: a node with two children gets the pair of its predecessor, which
    is removed in its place. -/
def markNode (cur_node : ppointer) : TreeM E ω ppointer := do
  if (← left cur_node) ≠ NULL ∧ (← right cur_node) ≠ NULL then
    let prev_node ← findRightmost fuel (← left cur_node)
    setKeyValue cur_node (← deref prev_node).key (← deref prev_node).value
    return prev_node
  else
    return cur_node

/-- Replace a node with its child; the result is the parent of the child. -/
def replaceNode (cur_node child_node : ppointer) : TreeM (ParentExt τ) ω ppointer := do
  if cur_node = (← getRoot) then
    setRoot child_node
    return NULL
  else
    let child_parent ← parent cur_node
    relink child_parent cur_node child_node
    return child_parent

/-- Free an unused node. -/
def freeNode (cur_node : ppointer) : TreeM E ω Unit := do
  destroy key_destroy_func (← deref cur_node).key
  destroy value_destroy_func (← deref cur_node).value
  free cur_node

end

end Plibsys
