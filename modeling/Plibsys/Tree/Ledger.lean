/-
  The destroy notifications of a tree object, as a ledger.

  Each key object and each value object handed to the tree is afterwards stored in it or
  destroyed, and never both, as long as no removal finds its key in a node with two
  children.  Such a removal moves the binding of the predecessor into that node and then
  destroys it, instead of the binding that is removed.
-/
import Plibsys.Tree.Calls

namespace Plibsys

open Looping Linked SortedMaps Runs

/-- An object that is handed to a tree. -/
inductive TreeObject where
  | key (p : ppointer)
  | value (p : ppointer)
  deriving DecidableEq, Repr

/-- Destroy functions that record what they are called with. -/
def recordKey : PDestroyFunc (List TreeObject) := fun p ledger => ledger ++ [.key p]

def recordValue : PDestroyFunc (List TreeObject) := fun p ledger => ledger ++ [.value p]

/-- The objects of bindings. -/
def objects (ps : List (ppointer × ppointer)) : List TreeObject := ps.flatMap fun p => [.key p.1, .value p.2]

/-- The objects handed to the tree by a sequence of calls. -/
def handed {ω : Type} (calls : List (TreeCall ω)) : List TreeObject :=
  calls.flatMap fun
    | .insert key value _ => [.key key, .value value]
    | _ => []

/-- An insertion, a removal or a clearing. -/
def IsUpdate {ω : Type} : TreeCall ω → Prop
  | .insert _ _ _ | .remove _ | .clear => True
  | _ => False

/-- The key is in a node with two children. -/
def findsTwoChildNode {type : PTreeType} {ω : Type} (fuel : ℕ) (tree : PTree type ω) (key : ppointer) : Bool :=
  ((findNode fuel tree.compare_func key tree.mem.root).run tree.mem).any fun r =>
    (tree.mem.get r.1).any fun n => n.left ≠ NULL ∧ n.right ≠ NULL

/-- What a call does to the map and the ledger: exactly the objects of the bindings that it
    replaces or removes are destroyed. -/
inductive LedgerCall {c : Comparison ppointer} :
    SortedMap c ppointer × List TreeObject → TreeCall (List TreeObject) → TreeResult (List TreeObject) →
      SortedMap c ppointer × List TreeObject → Prop
  | insert {m ledger key value mem} : LedgerCall (m, ledger) (.insert key value mem) .void
      (m.insert key value, ledger ++ objects (m.bindings key))
  | remove {m ledger key} : LedgerCall (m, ledger) (.remove key) (.bool (m.contains key))
      (m.erase key, ledger ++ objects (m.bindings key))
  | clear {m ledger} : LedgerCall (m, ledger) .clear .void (.empty, ledger ++ objects m.entries)

theorem notifiedAll_record (ps : List (ppointer × ppointer)) (ledger : List TreeObject) :
    notifiedAll (some recordKey) (some recordValue) ps ledger = ledger ++ objects ps := by
  induction ps generalizing ledger with
  | nil => simp [notifiedAll, objects]
  | cons p ps ih =>
    have hp : notifiedPair (some recordKey) (some recordValue) p ledger = ledger ++ [.key p.1, .value p.2] := by
      simp [notifiedPair, notified, recordKey, recordValue]
    rw [notifiedAll, List.foldl_cons, hp]
    refine (ih _).trans ?_
    simp [objects]

section
variable {c : Comparison ppointer} {m m' : SortedMap c ppointer} {ledger ledger' : List TreeObject}
  {calls : List (TreeCall (List TreeObject))} {results : List (TreeResult (List TreeObject))}

/-! ## Conservation -/

theorem objects_append (ps qs : List (ppointer × ppointer)) : objects (ps ++ qs) = objects ps ++ objects qs := by
  simp [objects]

theorem objects_cons (p : ppointer × ppointer) (ps : List (ppointer × ppointer)) :
    objects (p :: ps) = objects [p] ++ objects ps := objects_append [p] ps

/-- Every object handed to the tree is stored or destroyed, after a call as before it. -/
theorem LedgerCall.conserves {call : TreeCall (List TreeObject)} {o : TreeResult (List TreeObject)}
    {a a' : SortedMap c ppointer × List TreeObject} (h : LedgerCall a call o a') :
    (objects a'.1.entries ++ a'.2).Perm (objects a.1.entries ++ a.2 ++ handed [call]) := by
  refine List.perm_iff_count.2 fun x => ?_
  cases h with
  | @insert m _ key value mem =>
    obtain ⟨bef, mid, aft, hs, -⟩ := m.exists_splitAt key
    have hnew : handed [(.insert key value mem : TreeCall (List TreeObject))] = objects [(key, value)] := rfl
    simp only [hs.insert_entries, hs.bindings_eq, hs.eq, hnew, objects_append, objects_cons (key, value) aft,
      List.count_append]
    omega
  | @remove m _ key =>
    obtain ⟨bef, mid, aft, hs, -⟩ := m.exists_splitAt key
    have hnew : handed [(.remove key : TreeCall (List TreeObject))] = [] := rfl
    simp only [hs.erase_entries, hs.bindings_eq, hs.eq, hnew, objects_append, List.count_append, List.count_nil]
    omega
  | @clear m =>
    have hnew : handed [(.clear : TreeCall (List TreeObject))] = [] := rfl
    have hempty : objects (SortedMap.empty : SortedMap c ppointer).entries = [] := rfl
    simp only [hnew, hempty, List.count_append, List.count_nil]
    omega

theorem LedgerCall.run_conserves {a a' : SortedMap c ppointer × List TreeObject}
    (h : SpecRun LedgerCall a calls results a') :
    (objects a'.1.entries ++ a'.2).Perm (objects a.1.entries ++ a.2 ++ handed calls) := by
  induction h with
  | nil => simp [handed]
  | @cons a call o a₁ calls results a' hcall _ ih =>
    refine ih.trans ((hcall.conserves.append_right _).trans ?_)
    rw [List.append_assoc, show handed [call] ++ handed calls = handed (call :: calls) by simp [handed]]

end

/-! ## The calls -/

section
variable {type : PTreeType} {tree : PTree type (List TreeObject)} {c : Comparison ppointer}
  {kd vd : Option (PDestroyFunc (List TreeObject))} {t : AddrTree (Item type.Tag)} {m : SortedMap c ppointer}
  {fuel : ℕ} {key : ppointer}

theorem Represents.findsTwoChildNode_iff (h : Represents tree kd vd t m) (hfuel : m.size < fuel) :
    findsTwoChildNode fuel tree key = true ↔ InTwoChildNode c.cmp key t := by
  rw [findsTwoChildNode, h.compare_eq]
  rcases h.holds.run_findNode key hfuel with ⟨hrun, -, htwo⟩ | ⟨a, n, hrun, -, hn, -, htwo⟩
  · simp [hrun, htwo, Mem.get]
  · simp [hrun, htwo, hn]

/-- One call on a tree that represents a map. -/
theorem treeCall_ledgerCall {n N : ℕ} (hfuel : 2 * N < fuel) {call : TreeCall (List TreeObject)}
    {a : SortedMap c ppointer × List TreeObject}
    (h : RepresentsMap (some recordKey) (some recordValue) N (n + 1) tree a)
    (hok : Allocates tree call ∧ IsUpdate call ∧ ∀ key, call = .remove key →
    findsTwoChildNode fuel tree key = false) :
    ∃ o tree' a', treeCall fuel call tree = some (o, tree') ∧ LedgerCall a call o a' ∧
      RepresentsMap (some recordKey) (some recordValue) N n tree' a' := by
  obtain ⟨m, w⟩ := a
  obtain ⟨⟨t, h⟩, rfl, hsize⟩ := h
  dsimp only at hsize h
  have hlt : m.size < fuel := by omega
  have hlt₂ : 2 * m.size < fuel := by omega
  obtain ⟨halloc, hupdate, htwo⟩ := hok
  cases call with
  | insert key value mem =>
    obtain ⟨tree', t', hrun, h', hw⟩ := h.insert key value hlt halloc.1 halloc.2
    rw [notifiedAll_record] at hw
    refine ⟨_, tree', (m.insert key value, _), by simp [treeCall, hrun], .insert, ⟨t', h'⟩, hw, ?_⟩
    have hins := m.size_insert key value
    show (m.insert key value).size + n ≤ N
    split_ifs at hins <;> omega
  | remove key =>
    obtain ⟨tree', t', hrun, h', hw⟩ := h.remove key hlt
    have hw := hw (mt (h.findsTwoChildNode_iff hlt).2 (by simp [htwo key rfl]))
    rw [notifiedAll_record] at hw
    refine ⟨_, tree', (m.erase key, _), by simp [treeCall, hrun], .remove, ⟨t', h'⟩, hw, ?_⟩
    have her := m.size_erase key
    show (m.erase key).size + n ≤ N
    split_ifs at her <;> omega
  | clear =>
    obtain ⟨tree', hrun, h', hw⟩ := h.clear hlt₂
    rw [notifiedAll_record] at hw
    exact ⟨_, tree', (.empty, _), by simp [treeCall, hrun], .clear, ⟨.nil, h'⟩, hw, show 0 + n ≤ N by omega⟩
  | lookup key => exact hupdate.elim
  | getNnodes => exact hupdate.elim
  | foreach traverse_func => exact hupdate.elim

end

/-- **The ledger.**  Where no removal finds its key in a node with two children, the calls
    destroy exactly the objects whose bindings they replace or remove, so that in the end each
    object handed to the tree is either stored or has been destroyed once. -/
theorem pTree_ledger (type : PTreeType) (c : Comparison ppointer)
    (cell : ppointer → Option (PTreeBaseNode type.Ext)) (calls : List (TreeCall (List TreeObject))) {fuel : ℕ}
    (hfuel : 2 * calls.length < fuel) (hfresh : (handed calls).Nodup)
    (hok : Along (treeCall fuel) (fun tree call => Allocates tree call ∧ IsUpdate call ∧
        ∀ key, call = .remove key → findsTwoChildNode fuel tree key = false) calls
      (pTreeNewFull type c.cmp (some recordKey) (some recordValue) cell [])) :
    ∃ results tree t, ∃ m : SortedMap c ppointer,
      run (treeCall fuel) calls (pTreeNewFull type c.cmp (some recordKey) (some recordValue) cell []) =
        some (results, tree) ∧
      HoldsMap type tree.mem t m ∧ SpecRun LedgerCall (.empty, []) calls results (m, tree.mem.world) ∧
      (objects m.entries ++ tree.mem.world).Nodup ∧
      ∀ x, x ∈ handed calls ↔ x ∈ objects m.entries ∨ x ∈ tree.mem.world := by
  obtain ⟨results, tree, ⟨m, ledger⟩, hrun, hspec, ⟨t, h⟩, hw, -⟩ := simulates hok
    (representsMap_new calls.length (some recordKey) (some recordValue) cell []) fun _ _ _ _ h hok =>
      treeCall_ledgerCall (c := c) hfuel h hok
  dsimp only at h hw
  subst hw
  have hperm := LedgerCall.run_conserves hspec
  simp only [show objects (SortedMap.empty : SortedMap c ppointer).entries = [] from rfl, List.nil_append] at hperm
  exact ⟨results, tree, t, m, hrun, h.holds, hspec, hperm.nodup_iff.2 hfresh, fun x => by
    rw [← hperm.mem_iff, List.mem_append]⟩

theorem pTree_ledger_rb : ∃ results tree t, ∃ m : SortedMap numberOrder ppointer,
    run (treeCall 9) [.insert 1 11 101, .insert 2 12 102, .remove 1, .clear]
        (pTreeNewFull .rb numberOrder.cmp (some recordKey) (some recordValue) (fun _ => none) []) =
      some (results, tree) ∧
    HoldsMap .rb tree.mem t m ∧
    SpecRun LedgerCall (.empty, []) [.insert 1 11 101, .insert 2 12 102, .remove 1, .clear] results
      (m, tree.mem.world) ∧
    (objects m.entries ++ tree.mem.world).Nodup ∧
    ∀ x, x ∈ handed ([.insert 1 11 101, .insert 2 12 102, .remove 1, .clear] : List (TreeCall Unit)) ↔
      x ∈ objects m.entries ∨ x ∈ tree.mem.world :=
  pTree_ledger .rb numberOrder (fun _ => none) [.insert 1 11 101, .insert 2 12 102, .remove 1, .clear]
    (by decide) (by decide)
    ⟨⟨⟨by decide, rfl⟩, trivial, by simp⟩, ⟨⟨by decide, rfl⟩, trivial, by simp⟩,
      ⟨trivial, trivial, fun key hk => by cases hk; rfl⟩, ⟨trivial, trivial, by simp⟩, trivial⟩

/-- Insert the keys 2, 1 and 3 and remove 2, which is at the root: the ledger, and what the keys
    2 and 1 are bound to. -/
def removeTwoChildNode (type : PTreeType) : Option (List TreeObject × Option ppointer × Option ppointer) :=
  (run (treeCall 9) [.insert 2 12 101, .insert 1 11 102, .insert 3 13 103, .remove 2]
      (pTreeNewFull type numberOrder.cmp (some recordKey) (some recordValue) (fun _ => none) [])).map fun r =>
    (r.2.mem.world, pTreeLookup 9 r.2 2, pTreeLookup 9 r.2 1)

/-- **The removed binding is not destroyed, its predecessor is**, although that is still bound. -/
theorem pTree_ledger_twoChild :
    removeTwoChildNode .binary = some ([.key 1, .value 11], some NULL, some 11) ∧
      removeTwoChildNode .rb = some ([.key 1, .value 11], some NULL, some 11) ∧
      removeTwoChildNode .avl = some ([.key 1, .value 11], some NULL, some 11) := by
  decide

end Plibsys
