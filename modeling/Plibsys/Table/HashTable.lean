/-
  The hash table (`phashtable.c`).

  The chain of a bucket is the list of its nodes.  An access fails (`none`) outside of the
  array of buckets.
-/
import Plibsys.Types

namespace Plibsys

structure PHashTableNode where
  key : ppointer
  value : ppointer
  deriving DecidableEq, Repr

structure PHashTable where
  table : List (List PHashTableNode)
  size : psize
  deriving DecidableEq, Repr

/-- `P_HASH_TABLE_SIZE`. -/
def hashTableSize : ℕ := 101

/-- `P_POINTER_TO_INT`: the low 32 bits. -/
def pPointerToInt (p : ppointer) : pint := Int32.ofNat p

/-- `(ppointer) (-1)`. -/
def pPointerMinusOne : ppointer := 2 ^ 64 - 1

def ppHashTableCalcHash (pointer : ppointer) (modulo : psize) : puint :=
  ((pPointerToInt pointer + 37).toInt64.toUInt64 % modulo).toUInt32

def ppHashTableFindNode (table : PHashTable) (key : ppointer) : Option (Option PHashTableNode) := do
  let hash := ppHashTableCalcHash key table.size
  let chain ← table.table[hash.toNat]?
  return chain.find? fun node => node.key = key

def pHashTableNew : PHashTable := ⟨List.replicate hashTableSize [], UInt64.ofNat hashTableSize⟩

/-- `node->value = value` for the first node with this key. -/
def setValue (key value : ppointer) : List PHashTableNode → List PHashTableNode
  | [] => []
  | node :: next => if node.key = key then { node with value := value } :: next else node :: setValue key value next

def pHashTableInsert (table : PHashTable) (key value : ppointer) : Option PHashTable := do
  let hash := ppHashTableCalcHash key table.size
  let chain ← table.table[hash.toNat]?
  match ← ppHashTableFindNode table key with
  | none => return { table with table := table.table.set hash.toNat (⟨key, value⟩ :: chain) }
  | some _ => return { table with table := table.table.set hash.toNat (setValue key value chain) }

def pHashTableLookup (table : PHashTable) (key : ppointer) : Option ppointer := do
  match ← ppHashTableFindNode table key with
  | none => return pPointerMinusOne
  | some node => return node.value

/-- The two nested loops over the nodes, from the first bucket to the last. -/
def collect (table : PHashTable) (take : PHashTableNode → Option ppointer) : Option (List ppointer) :=
  (List.range table.size.toNat).foldlM (fun ret i => do
    let chain ← table.table[i]?
    return chain.foldl (fun ret node => ret ++ (take node).toList) ret) []

def pHashTableKeys (table : PHashTable) : Option (List ppointer) := collect table fun node => some node.key

def pHashTableValues (table : PHashTable) : Option (List ppointer) := collect table fun node => some node.value

/-- The loop of `p_hash_table_remove`; `passed` are the nodes up to `prev_node`. -/
def unlink (key : ppointer) (passed : List PHashTableNode) : List PHashTableNode → List PHashTableNode
  | [] => passed
  | node :: next => if node.key = key then passed ++ next else unlink key (passed ++ [node]) next

def pHashTableRemove (table : PHashTable) (key : ppointer) : Option PHashTable := do
  match ← ppHashTableFindNode table key with
  | none => return table
  | some _ =>
    let hash := ppHashTableCalcHash key table.size
    let chain ← table.table[hash.toNat]?
    return { table with table := table.table.set hash.toNat (unlink key [] chain) }

/-- A `PCompareFunc`, or `none` for the comparison of the pointers. -/
def accepts (func : Option (ppointer → ppointer → ℤ)) (value val : ppointer) : Bool :=
  match func with
  | none => value = val
  | some func => func value val = 0

def pHashTableLookupByValue (table : PHashTable) (val : ppointer) (func : Option (ppointer → ppointer → ℤ)) :
    Option (List ppointer) :=
  collect table fun node => if accepts func node.value val then some node.key else none

end Plibsys
