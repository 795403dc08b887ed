/-
  The hash table is a finite map.

  A table `Holds` an association list when the list has its bindings in the order of the
  nodes; `hashCall_spec` is one call, `pHashTable_mapCalls` a run of calls on a new table.
-/
import Mathlib.Data.Finmap
import Plibsys.Lib.Runs
import Plibsys.Table.HashTable

namespace Plibsys

open Runs

/-- The bindings of a table, in some order. -/
abbrev Bindings := AList fun _ : ppointer => ppointer

inductive HashCall where
  | insert (key value : ppointer)
  | remove (key : ppointer)
  | lookup (key : ppointer)
  | keys
  | values
  | lookupByValue (val : ppointer) (func : Option (ppointer → ppointer → ℤ))

inductive HashResult where
  | void
  | pointer (p : ppointer)
  | list (ps : List ppointer)
  deriving DecidableEq

def hashCall : HashCall → PHashTable → Option (HashResult × PHashTable)
  | .insert key value, t => (pHashTableInsert t key value).map fun t' => (.void, t')
  | .remove key, t => (pHashTableRemove t key).map fun t' => (.void, t')
  | .lookup key, t => (pHashTableLookup t key).map fun p => (.pointer p, t)
  | .keys, t => (pHashTableKeys t).map fun ps => (.list ps, t)
  | .values, t => (pHashTableValues t).map fun ps => (.list ps, t)
  | .lookupByValue val func, t => (pHashTableLookupByValue t val func).map fun ps => (.list ps, t)

/-- What a call does to a finite map.  The order of the bindings may change when it is modified,
    the enumerations follow it. -/
def mapSpec (m : Bindings) : HashCall → HashResult → Bindings → Prop
  | .insert key value, r, m' => r = .void ∧ m'.toFinmap = m.toFinmap.insert key value
  | .remove key, r, m' => r = .void ∧ m'.toFinmap = m.toFinmap.erase key
  | .lookup key, r, m' => r = .pointer ((m.lookup key).getD pPointerMinusOne) ∧ m' = m
  | .keys, r, m' => r = .list m.keys ∧ m' = m
  | .values, r, m' => r = .list (m.entries.map Sigma.snd) ∧ m' = m
  | .lookupByValue val func, r, m' =>
    r = .list ((m.entries.filter fun b => accepts func b.2 val).map Sigma.fst) ∧ m' = m

variable {t t' : PHashTable} {m : Bindings} {key value : ppointer} {chain ns passed : List PHashTableNode}

/-! ## Buckets -/

def PHashTableNode.binding (node : PHashTableNode) : Sigma fun _ : ppointer => ppointer := ⟨node.key, node.value⟩

/-- The bucket of a key. -/
def PHashTable.bucket (t : PHashTable) (key : ppointer) : ℕ := (ppHashTableCalcHash key t.size).toNat

/-- Every node is in the bucket of its key. -/
structure PHashTable.Placed (t : PHashTable) : Prop where
  size_eq : t.size = UInt64.ofNat hashTableSize
  length_eq : t.table.length = hashTableSize
  bucket_eq : ∀ i chain, t.table[i]? = some chain → ∀ node ∈ chain, t.bucket node.key = i

/-- The table has exactly the bindings of `m`, in this order. -/
structure PHashTable.Holds (t : PHashTable) (m : Bindings) : Prop extends t.Placed where
  entries_eq : m.entries = t.table.flatten.map PHashTableNode.binding

theorem bucket_lt (h : t.Placed) (key : ppointer) : t.bucket key < t.table.length := by
  have hmod : (pPointerToInt key + 37).toInt64.toUInt64.toNat % hashTableSize < hashTableSize :=
    Nat.mod_lt _ (by decide)
  rw [h.length_eq, PHashTable.bucket, ppHashTableCalcHash, h.size_eq, UInt64.toNat_toUInt32, UInt64.toNat_mod]
  exact Nat.lt_of_le_of_lt (Nat.mod_le _ _) hmod

/-- The chain of a key among the others, none of which has the key. -/
theorem PHashTable.Placed.exists_chain (h : t.Placed) (key : ppointer) :
    ∃ l chain r, t.table = l ++ chain :: r ∧ l.length = t.bucket key ∧
      ∀ node ∈ l.flatten ++ r.flatten, node.key ≠ key := by
  have hlt := bucket_lt h key
  refine ⟨t.table.take (t.bucket key), t.table[t.bucket key], t.table.drop (t.bucket key + 1), ?_, ?_, ?_⟩
  · rw [List.getElem_cons_drop, List.take_append_drop]
  · exact List.length_take_of_le (Nat.le_of_lt hlt)
  · intro node hnode hkey
    -- a node in the chain at `i` has bucket `i`
    have hne : ∀ i chain, t.table[i]? = some chain → node ∈ chain → i = t.bucket key := fun i chain hi hmem =>
      hkey ▸ (h.bucket_eq i chain hi node hmem).symm
    rcases List.mem_append.1 hnode with hmem | hmem
    · obtain ⟨chain, hchain, hmem⟩ := List.mem_flatten.1 hmem
      obtain ⟨i, hi, rfl⟩ := List.mem_take_iff_getElem.1 hchain
      have := hne i _ (List.getElem?_eq_getElem (by omega)) hmem
      omega
    · obtain ⟨chain, hchain, hmem⟩ := List.mem_flatten.1 hmem
      obtain ⟨i, hi, rfl⟩ := List.mem_drop_iff_getElem.1 hchain
      have := hne (t.bucket key + 1 + i) _ (List.getElem?_eq_getElem (by omega)) hmem
      omega

/-- Nodes of a bucket with the same keys, and perhaps `key`. -/
theorem PHashTable.Placed.set {l r : List (List PHashTableNode)} (h : t.Placed)
    (htable : t.table = l ++ chain :: r)
    (hl : l.length = t.bucket key) (ns : List PHashTableNode) (hns : ∀ node ∈ ns, node.key = key ∨ node ∈ chain) :
    PHashTable.Placed { t with table := l ++ ns :: r } := by
  refine ⟨h.size_eq, ?_, ?_⟩
  · have := h.length_eq
    rw [htable] at this
    simpa using this
  · intro i chain' hi node hnode
    have hold : ∀ chain', t.table[i]? = some chain' → node ∈ chain' → t.bucket node.key = i :=
      fun chain' hi' hmem => h.bucket_eq i chain' hi' node hmem
    rw [htable] at hold
    change t.bucket node.key = i
    rcases Nat.lt_trichotomy i l.length with hlt | rfl | hgt
    · rw [List.getElem?_append_left hlt] at hi hold
      exact hold chain' hi hnode
    · rw [List.getElem?_append_right le_rfl, Nat.sub_self] at hi hold
      cases hi
      rcases hns node hnode with hkey | hmem
      · rw [hkey, hl]
      · exact hold chain rfl hmem
    · rw [List.getElem?_append_right (Nat.le_of_lt hgt), List.getElem?_cons, if_neg (by omega)] at hi hold
      exact hold chain' hi hnode

/-! ## Loops -/

theorem unlink_eq (hpassed : ∀ node ∈ ns, node.key ≠ key) {node : PHashTableNode} (hkey : node.key = key) :
    unlink key passed (ns ++ node :: chain) = passed ++ ns ++ chain := by
  induction ns generalizing passed with
  | nil => simp [unlink, hkey]
  | cons n ns ih =>
    rw [List.cons_append, unlink, if_neg (hpassed n List.mem_cons_self),
      ih fun n' hn' => hpassed n' (List.mem_cons_of_mem _ hn')]
    simp

theorem setValue_eq (hpassed : ∀ node ∈ ns, node.key ≠ key) {node : PHashTableNode} (hkey : node.key = key) :
    setValue key value (ns ++ node :: chain) = ns ++ { node with value := value } :: chain := by
  induction ns with
  | nil => simp [setValue, hkey]
  | cons n ns ih =>
    rw [List.cons_append, setValue, if_neg (hpassed n List.mem_cons_self),
      ih fun n' hn' => hpassed n' (List.mem_cons_of_mem _ hn')]
    rfl

/-- The loops over the nodes see them all, in the order of the buckets. -/
theorem PHashTable.Placed.collect_eq (h : t.Placed) (take : PHashTableNode → Option ppointer) :
    collect t take = some (t.table.flatten.filterMap take) := by
  have hchain : ∀ (chain : List PHashTableNode) ret,
      chain.foldl (fun ret node => ret ++ (take node).toList) ret = ret ++ chain.filterMap take := by
    intro chain
    induction chain with
    | nil => simp
    | cons node chain ih =>
      intro ret
      rw [List.foldl_cons, ih]
      cases htake : take node <;> simp [htake]
  have hrange : ∀ n ≤ t.table.length, (List.range n).foldlM (fun ret i => do
      let chain ← t.table[i]?
      return chain.foldl (fun ret node => ret ++ (take node).toList) ret) [] =
        some ((t.table.take n).flatten.filterMap take) := by
    intro n hn
    induction n with
    | zero => rfl
    | succ n ih =>
      have hget : t.table[n]? = some t.table[n] := List.getElem?_eq_getElem (by omega)
      rw [List.range_succ, List.foldlM_append, ih (by omega), List.take_add_one, hget, Option.toList_some,
        List.flatten_append, List.flatten_singleton, List.filterMap_append]
      simp only [List.foldlM_cons, List.foldlM_nil, hget, hchain, Option.bind_eq_bind, Option.bind_some]
      rfl
  have hsize : t.size.toNat = t.table.length := by rw [h.size_eq, h.length_eq]; rfl
  rw [collect, hsize, hrange _ le_rfl, List.take_length]

/-! ## Calls -/

theorem PHashTable.Holds.entries_split (h : t.Holds m) {l r : List (List PHashTableNode)}
    (htable : t.table = l ++ chain :: r) :
    m.entries = (l.flatten ++ chain ++ r.flatten).map PHashTableNode.binding := by
  rw [h.entries_eq, htable]
  simp

/-- The chain that is searched and modified. -/
theorem ppHashTableFindNode_eq {l r : List (List PHashTableNode)} (htable : t.table = l ++ chain :: r)
    (hl : l.length = t.bucket key) :
    t.table[(ppHashTableCalcHash key t.size).toNat]? = some chain ∧
      ppHashTableFindNode t key = some (chain.find? fun node => node.key = key) ∧
      ∀ ns, t.table.set (ppHashTableCalcHash key t.size).toNat ns = l ++ ns :: r := by
  have hget : t.table[(ppHashTableCalcHash key t.size).toNat]? = some chain := by
    change t.table[t.bucket key]? = some chain
    rw [htable, ← hl, List.getElem?_append_right le_rfl, Nat.sub_self]
    rfl
  refine ⟨hget, ?_, fun ns => ?_⟩
  · rw [ppHashTableFindNode, hget]
    rfl
  · change t.table.set (t.bucket key) ns = l ++ ns :: r
    rw [htable, ← hl, List.set_append_right _ _ le_rfl, Nat.sub_self]
    rfl

theorem PHashTable.Holds.mem_iff (h : t.Holds m) : key ∈ m ↔ ∃ node ∈ t.table.flatten, node.key = key := by
  have hkeys : m.keys = t.table.flatten.map PHashTableNode.key := by
    rw [AList.keys, h.entries_eq, List.keys, List.map_map]
    rfl
  rw [AList.mem_keys, hkeys, List.mem_map]

theorem kerase_middle {xs ys : List (Sigma fun _ : ppointer => ppointer)} (hxs : key ∉ xs.keys) :
    (xs ++ ⟨key, value⟩ :: ys).kerase key = xs ++ ys := by
  rw [List.kerase_append_right hxs]
  exact congrArg (xs ++ ·) (List.kerase_cons_eq rfl)

/-- Where a key is: in no node, or in one node of its chain. -/
inductive PHashTable.Finds (t : PHashTable) (m : Bindings) (key : ppointer) : Prop
  | absent {l r chain} (htable : t.table = l ++ chain :: r) (hl : l.length = t.bucket key)
      (hfind : chain.find? (fun node => node.key = key) = none) (hmem : key ∉ m)
  | present {l r before after value} (htable : t.table = l ++ (before ++ ⟨key, value⟩ :: after) :: r)
      (hl : l.length = t.bucket key)
      (hfind : (before ++ ⟨key, value⟩ :: after).find? (fun node => node.key = key) = some ⟨key, value⟩)
      (hbefore : ∀ node ∈ before, node.key ≠ key)
      (hentries : m.entries = (l.flatten ++ before).map PHashTableNode.binding ++
        ⟨key, value⟩ :: (after ++ r.flatten).map PHashTableNode.binding)

theorem PHashTable.Holds.finds (h : t.Holds m) (key : ppointer) : t.Finds m key := by
  obtain ⟨l, chain, r, htable, hl, hne⟩ := h.exists_chain key
  cases hfind : chain.find? fun node => node.key = key with
  | none =>
    refine .absent htable hl hfind ?_
    rw [h.mem_iff, htable]
    rintro ⟨node, hnode, hkey⟩
    rw [List.flatten_append, List.flatten_cons] at hnode
    rcases List.mem_append.1 hnode with hmem | hmem
    · exact hne node (List.mem_append_left _ hmem) hkey
    · rcases List.mem_append.1 hmem with hmem | hmem
      · simpa [hkey] using List.find?_eq_none.1 hfind node hmem
      · exact hne node (List.mem_append_right _ hmem) hkey
  | some node =>
    obtain ⟨hkey, before, after, rfl, hbefore⟩ := List.find?_eq_some_iff_append.1 hfind
    obtain rfl : node.key = key := of_decide_eq_true hkey
    refine .present htable hl hfind (fun n hn => by simpa using hbefore n hn) ?_
    rw [h.entries_split htable]
    simp [PHashTableNode.binding]

/-- A binding is in front of and behind bindings of other keys. -/
theorem Bindings.ne_of_split {xs ys : List (Sigma fun _ : ppointer => ppointer)}
    (hentries : m.entries = xs ++ ⟨key, value⟩ :: ys) : key ∉ xs.keys ∧ key ∉ (xs ++ ys).keys := by
  have hnodup := m.nodupKeys
  rw [hentries, List.nodupKeys_middle] at hnodup
  have hne := List.notMem_keys_of_nodupKeys_cons hnodup
  refine ⟨fun hmem => hne ?_, hne⟩
  rw [List.keys_append]
  exact List.mem_append_left _ hmem

theorem flatten_split {l r : List (List PHashTableNode)} {before after : List PHashTableNode}
    {node : PHashTableNode} :
    (l ++ (before ++ node :: after) :: r).flatten = (l.flatten ++ before) ++ node :: (after ++ r.flatten) := by
  simp

/-- A table with the bindings of `m` in another order. -/
theorem PHashTable.Placed.holds_of_perm (h : t.Placed)
    (hperm : (t.table.flatten.map PHashTableNode.binding).Perm m.entries) :
    ∃ m', m'.toFinmap = m.toFinmap ∧ t.Holds m' :=
  ⟨⟨_, (List.perm_nodupKeys hperm).2 m.nodupKeys⟩, AList.toFinmap_eq.2 hperm, h, rfl⟩

theorem hashCall_insert (h : t.Holds m) (key value : ppointer) :
    ∃ t' m', pHashTableInsert t key value = some t' ∧ m'.toFinmap = m.toFinmap.insert key value ∧ t'.Holds m' := by
  rw [Finmap.insert_toFinmap]
  obtain @⟨l, r, chain, htable, hl, hfind,
    hmem⟩ | @⟨l, r, before, after, old, htable, hl, hfind, hbefore, hentries⟩ :=
    h.finds key
  · obtain ⟨hget, hnode, hset⟩ := ppHashTableFindNode_eq htable hl
    have hplaced := h.toPlaced.set htable hl (⟨key, value⟩ :: chain) (by grind)
    obtain ⟨m', hm', hholds⟩ := hplaced.holds_of_perm (m := m.insert key value) (by
      rw [AList.entries_insert_of_notMem hmem, h.entries_split htable]
      simp [PHashTableNode.binding])
    refine ⟨_, m', ?_, hm', hholds⟩
    rw [pHashTableInsert, hget, hnode, hfind]
    simp [hset]
  · obtain ⟨hget, hnode, hset⟩ := ppHashTableFindNode_eq htable hl
    have hplaced := h.toPlaced.set htable hl (before ++ ⟨key, value⟩ :: after) (by grind)
    obtain ⟨m', hm', hholds⟩ := hplaced.holds_of_perm (m := m.insert key value) (by
      rw [AList.entries_insert, hentries, kerase_middle (Bindings.ne_of_split hentries).1]
      rw [flatten_split, List.map_append]
      exact List.perm_middle)
    refine ⟨_, m', ?_, hm', hholds⟩
    rw [pHashTableInsert, hget, hnode, hfind]
    simp [hset, setValue_eq hbefore]

theorem hashCall_remove (h : t.Holds m) (key : ppointer) :
    ∃ t' m', pHashTableRemove t key = some t' ∧ m'.toFinmap = m.toFinmap.erase key ∧ t'.Holds m' := by
  rw [Finmap.erase_toFinmap]
  obtain @⟨l, r, chain, htable, hl, hfind,
    hmem⟩ | @⟨l, r, before, after, old, htable, hl, hfind, hbefore, hentries⟩ :=
    h.finds key
  · obtain ⟨hget, hnode, hset⟩ := ppHashTableFindNode_eq htable hl
    refine ⟨t, m, ?_, ?_, h⟩
    · rw [pHashTableRemove, hnode, hfind]
      rfl
    · have hsame : m.erase key = m := AList.ext (List.kerase_of_notMem_keys (by rwa [AList.mem_keys] at hmem))
      rw [hsame]
  · obtain ⟨hget, hnode, hset⟩ := ppHashTableFindNode_eq htable hl
    have hplaced := h.toPlaced.set htable hl (before ++ after) (by grind)
    obtain ⟨m', hm', hholds⟩ := hplaced.holds_of_perm (m := m.erase key) (by
      have herase : (m.erase key).entries = m.entries.kerase key := rfl
      rw [herase, hentries, kerase_middle (Bindings.ne_of_split hentries).1]
      simp)
    refine ⟨_, m', ?_, hm', hholds⟩
    rw [pHashTableRemove, hnode, hfind]
    simp [hget, hset, unlink_eq hbefore]

theorem hashCall_lookup (h : t.Holds m) (key : ppointer) :
    pHashTableLookup t key = some ((m.lookup key).getD pPointerMinusOne) := by
  obtain @⟨l, r, chain, htable, hl, hfind,
    hmem⟩ | @⟨l, r, before, after, value, htable, hl, hfind, hbefore, hentries⟩ :=
    h.finds key
  · obtain ⟨-, hnode, -⟩ := ppHashTableFindNode_eq htable hl
    rw [pHashTableLookup, hnode, hfind, AList.lookup_eq_none.2 hmem]
    rfl
  · obtain ⟨-, hnode, -⟩ := ppHashTableFindNode_eq htable hl
    have hlookup : m.lookup key = some value := by
      refine (List.mem_dlookup_iff m.nodupKeys).2 ?_
      rw [hentries]
      exact List.mem_append_right _ List.mem_cons_self
    rw [pHashTableLookup, hnode, hfind, hlookup]
    rfl

/-- The enumerations follow the order of the bindings. -/
theorem PHashTable.Holds.collect_eq (h : t.Holds m) (take : PHashTableNode → Option ppointer) :
    collect t take = some (m.entries.filterMap fun b => take ⟨b.1, b.2⟩) := by
  rw [h.toPlaced.collect_eq, h.entries_eq, List.filterMap_map]
  rfl

/-- **One call** is a call on a finite map. -/
theorem hashCall_spec (h : t.Holds m) (call : HashCall) :
    ∃ r t' m', hashCall call t = some (r, t') ∧ mapSpec m call r m' ∧ t'.Holds m' := by
  cases call with
  | insert key value =>
    obtain ⟨t', m', hcall, hm', hholds⟩ := hashCall_insert h key value
    exact ⟨.void, t', m', by rw [hashCall, hcall]; rfl, ⟨rfl, hm'⟩, hholds⟩
  | remove key =>
    obtain ⟨t', m', hcall, hm', hholds⟩ := hashCall_remove h key
    exact ⟨.void, t', m', by rw [hashCall, hcall]; rfl, ⟨rfl, hm'⟩, hholds⟩
  | lookup key => exact ⟨_, t, m, by rw [hashCall, hashCall_lookup h]; rfl, ⟨rfl, rfl⟩, h⟩
  | keys =>
    refine ⟨.list m.keys, t, m, ?_, ⟨rfl, rfl⟩, h⟩
    rw [hashCall, pHashTableKeys, h.collect_eq, List.filterMap_eq_map']
    rfl
  | values =>
    refine ⟨.list (m.entries.map Sigma.snd), t, m, ?_, ⟨rfl, rfl⟩, h⟩
    rw [hashCall, pHashTableValues, h.collect_eq, List.filterMap_eq_map']
    rfl
  | lookupByValue val func =>
    refine ⟨.list ((m.entries.filter fun b => accepts func b.2 val).map Sigma.fst), t, m, ?_, ⟨rfl, rfl⟩, h⟩
    have hfilter : (m.entries.filterMap fun b => if accepts func b.2 val then some b.1 else none) =
        (m.entries.filter fun b => accepts func b.2 val).map Sigma.fst := by
      rw [← List.filterMap_eq_map', List.filterMap_filter]
    rw [hashCall, pHashTableLookupByValue, h.collect_eq, hfilter]
    rfl

theorem pHashTableNew_holds : pHashTableNew.Holds ∅ := by
  refine ⟨⟨rfl, rfl, ?_⟩, ?_⟩
  · intro i chain hi node hnode
    obtain rfl : chain = [] := by
      have hmem := List.mem_of_getElem? hi
      exact (List.mem_replicate.1 hmem).2
    cases hnode
  · simp [pHashTableNew]

/-- **A run of calls on a new table** is a run on a finite map, and leads to a table in which each
    key is in at most one node, which is in the bucket of the key. -/
theorem pHashTable_mapCalls (calls : List HashCall) :
    ∃ rs t m, run hashCall calls pHashTableNew = some (rs, t) ∧ SpecRun mapSpec ∅ calls rs m ∧
      t.Holds m ∧ (t.table.flatten.map PHashTableNode.key).Nodup ∧ ∀ key, t.bucket key < t.table.length := by
  have hok : Along hashCall (fun _ _ => True) calls pHashTableNew := .of_forall (fun _ _ => trivial) _ _
  obtain ⟨rs, t, m, hrun, hspec, hholds⟩ :=
    simulates (R := fun _ t m => PHashTable.Holds t m) hok pHashTableNew_holds
      fun _ _ _ call h _ => hashCall_spec h call
  have hkeys : t.table.flatten.map PHashTableNode.key = m.keys := by
    rw [AList.keys, hholds.entries_eq, List.keys, List.map_map]
    rfl
  exact ⟨rs, t, m, hrun, hspec, hholds, hkeys ▸ m.keys_nodup, bucket_lt hholds.toPlaced⟩

end Plibsys
