/-
  A tree object under a sequence of calls: whatever its type, it is a finite map.
-/
import Plibsys.Lib.Runs
import Plibsys.Tree.HoldsMap

namespace Plibsys

open Looping Linked SortedMaps Runs

/-- A call.  With an insertion comes the address that `p_malloc0` returns if it is called. -/
inductive TreeCall (ω : Type) where
  | insert (key value mem : ppointer)
  | remove (key : ppointer)
  | lookup (key : ppointer)
  | getNnodes
  | foreach (traverse_func : PTraverseFunc ω)
  | clear

/-- What a call returns; for a traversal, the outside world after it. -/
inductive TreeResult (ω : Type) where
  | void
  | bool (b : Bool)
  | pointer (p : ppointer)
  | int (n : pint)
  | world (w : ω)

/-- A call on a tree, with a bound for the loops. -/
def treeCall {type : PTreeType} {ω : Type} (fuel : ℕ) :
    TreeCall ω → PTree type ω → Option (TreeResult ω × PTree type ω)
  | .insert key value mem, tree => do
    let tree ← pTreeInsert fuel tree key value mem
    return (.void, tree)
  | .remove key, tree => do
    let (result, tree) ← pTreeRemove fuel tree key
    return (.bool result, tree)
  | .lookup key, tree => do
    let value ← pTreeLookup fuel tree key
    return (.pointer value, tree)
  | .getNnodes, tree => some (.int (pTreeGetNnodes tree), tree)
  | .foreach traverse_func, tree => do
    let tree ← pTreeForeach fuel tree traverse_func
    return (.world tree.mem.world, tree)
  | .clear, tree => do
    let tree ← pTreeClear fuel tree
    return (.void, tree)

/-- The address for a new node is not `NULL` and not in use. -/
def Allocates {type : PTreeType} {ω : Type} (tree : PTree type ω) : TreeCall ω → Prop
  | .insert _ _ mem => mem ≠ NULL ∧ tree.mem.get mem = none
  | _ => True

/-- The callback of a traversal does not stop it. -/
def NeverStops {ω : Type} : TreeCall ω → Prop
  | .foreach traverse_func => ∀ key value w, (traverse_func key value w).1 = FALSE
  | _ => True

/-- A tree object that represents the map `m` as the tree `t`. -/
structure Represents {type : PTreeType} {ω : Type} (tree : PTree type ω) (kd vd : Option (PDestroyFunc ω))
    {c : Comparison ppointer} (t : AddrTree (Item type.Tag)) (m : SortedMap c ppointer) : Prop where
  compare_eq : tree.compare_func = c.cmp
  key_destroy_eq : tree.key_destroy_func = kd
  value_destroy_eq : tree.value_destroy_func = vd
  holds : HoldsMap type tree.mem t m
  nnodes_eq : tree.nnodes = Int32.ofNat m.size

section
variable {type : PTreeType} {ω : Type} {tree : PTree type ω} {c : Comparison ppointer}
  {kd vd : Option (PDestroyFunc ω)} {t : AddrTree (Item type.Tag)} {m : SortedMap c ppointer} {fuel : ℕ}
  {key value mem : ppointer}

theorem represents_new (type : PTreeType) (c : Comparison ppointer) (kd vd : Option (PDestroyFunc ω))
    (cell : ppointer → Option (PTreeBaseNode type.Ext)) (world : ω) :
    Represents (pTreeNewFull type c.cmp kd vd cell world) kd vd .nil (.empty : SortedMap c ppointer) where
  compare_eq := rfl
  key_destroy_eq := rfl
  value_destroy_eq := rfl
  holds := ⟨⟨trivial, trivial, rfl, by simp [AddrTree.addrs, Ctx.addrs]⟩, type.balanced_nil, rfl⟩
  nnodes_eq := rfl

theorem ofNat_sub_one {n : ℕ} (h : 0 < n) : Int32.ofNat n - 1 = Int32.ofNat (n - 1) := by
  obtain ⟨n, rfl⟩ : ∃ k, n = k + 1 := ⟨n - 1, by omega⟩
  rw [Int32.ofNat_add, show Int32.ofNat 1 = 1 from rfl, Int32.add_sub_cancel, Nat.add_sub_cancel]

namespace Represents

theorem insert (h : Represents tree kd vd t m) (key value : ppointer) (hfuel : m.size < fuel) (h0 : mem ≠ NULL)
    (hfree : tree.mem.get mem = none) :
    ∃ tree' t', pTreeInsert fuel tree key value mem = some tree' ∧
      Represents tree' kd vd t' (m.insert key value) ∧
      tree'.mem.world = notifiedAll kd vd (m.bindings key) tree.mem.world := by
  obtain ⟨s', t', hrun, hm', hw⟩ := h.holds.run_insertNodeFunc kd vd key value hfuel h0 hfree
  rw [← h.compare_eq, ← h.key_destroy_eq, ← h.value_destroy_eq] at hrun
  have hn := h.nnodes_eq
  have hsize := m.size_insert key value
  cases hb : m.contains key
  · refine ⟨{ tree with mem := s', nnodes := tree.nnodes + 1 }, t', by simp [pTreeInsert, hrun, hb],
      ⟨h.compare_eq, h.key_destroy_eq, h.value_destroy_eq, hm', ?_⟩, hw⟩
    show tree.nnodes + 1 = _
    rw [hsize, hb, hn, if_neg (by simp), Int32.ofNat_add]
    rfl
  · refine ⟨{ tree with mem := s' }, t', by simp [pTreeInsert, hrun, hb],
      ⟨h.compare_eq, h.key_destroy_eq, h.value_destroy_eq, hm', ?_⟩, hw⟩
    rw [hsize, hb, hn, if_pos rfl]

theorem root_eq_null (h : Represents tree kd vd t m) : tree.mem.root = NULL ↔ t = .nil := by
  rw [show tree.mem.root = t.ptr from h.holds.holds.root_eq, h.holds.holds.ptr_eq_null]

/-- An empty tree represents the empty map. -/
theorem entries_of_nil (h : Represents tree kd vd .nil m) : m.entries = [] := h.holds.pairs_eq.symm

theorem remove (h : Represents tree kd vd t m) (key : ppointer) (hfuel : m.size < fuel) :
    ∃ tree' t', pTreeRemove fuel tree key = some (m.contains key, tree') ∧
      Represents tree' kd vd t' (m.erase key) ∧
      (¬ InTwoChildNode c.cmp key t → tree'.mem.world = notifiedAll kd vd (m.bindings key) tree.mem.world) := by
  have hn := h.nnodes_eq
  have hsize := m.size_erase key
  by_cases hroot : tree.mem.root = NULL
  · have ht := h.root_eq_null.1 hroot
    subst ht
    have hnil := h.entries_of_nil
    have hbind : m.bindings key = [] := by simp [SortedMap.bindings, hnil]
    have herase : m.erase key = m := SortedMap.ext (by simp [SortedMap.erase, hnil])
    rw [SortedMap.contains, hbind, herase]
    exact ⟨tree, .nil, by simp [pTreeRemove, hroot], h, fun _ => rfl⟩
  · obtain ⟨s', t', hrun, hm', hw⟩ := h.holds.run_removeNodeFunc kd vd key hfuel
    rw [← h.compare_eq, ← h.key_destroy_eq, ← h.value_destroy_eq] at hrun
    cases hb : m.contains key
    · refine ⟨{ tree with mem := s' }, t', by simp [pTreeRemove, hroot, hrun, hb],
        ⟨h.compare_eq, h.key_destroy_eq, h.value_destroy_eq, hm', ?_⟩, hw⟩
      rw [hsize, hb, hn, if_neg (by simp)]
    · refine ⟨{ tree with mem := s', nnodes := tree.nnodes - 1 }, t', by simp [pTreeRemove, hroot, hrun, hb],
        ⟨h.compare_eq, h.key_destroy_eq, h.value_destroy_eq, hm', ?_⟩, hw⟩
      show tree.nnodes - 1 = _
      rw [hsize, hb, hn, if_pos rfl, ofNat_sub_one (m.size_pos_of_contains key hb)]

theorem lookup (h : Represents tree kd vd t m) (key : ppointer) (hfuel : m.size < fuel) :
    pTreeLookup fuel tree key = some ((m.find? key).getD NULL) := by
  rcases h.holds.run_findNode key hfuel with ⟨hrun, hbind, -⟩ | ⟨a, n, hrun, ha, hn, hbind, -⟩
  · rw [← h.compare_eq] at hrun
    simp [pTreeLookup, hrun, SortedMap.find?, hbind]
  · rw [← h.compare_eq] at hrun
    simp [pTreeLookup, hrun, ha, hn, SortedMap.find?, hbind]

theorem foreach (h : Represents tree kd vd t m) (traverse_func : PTraverseFunc ω) (hfuel : 2 * m.size < fuel)
    (hok : (visitAll traverse_func m.entries (FALSE, tree.mem.world)).1 = TRUE → leftDepth t < 2 ^ 32) :
    ∃ tree', pTreeForeach fuel tree traverse_func = some tree' ∧ Represents tree' kd vd t m ∧
      tree'.mem.world = (visitAll traverse_func m.entries (FALSE, tree.mem.world)).2 := by
  by_cases hroot : tree.mem.root = NULL
  · have ht := h.root_eq_null.1 hroot
    subst ht
    exact ⟨tree, by simp [pTreeForeach, hroot], h, by rw [h.entries_of_nil]; rfl⟩
  · rw [← h.holds.pairs_eq] at hok ⊢
    have hrun := h.holds.holds.run_foreach (by rw [h.holds.size_eq]; exact hfuel) hok
    refine ⟨{ tree with mem := tree.mem.withWorld (visitAll traverse_func (pairs t) (FALSE, tree.mem.world)).2 },
      by simp [pTreeForeach, hroot, hrun],
      ⟨h.compare_eq, h.key_destroy_eq, h.value_destroy_eq, ?_, h.nnodes_eq⟩, rfl⟩
    exact ⟨h.holds.holds, h.holds.balanced, h.holds.pairs_eq⟩

theorem clear (h : Represents tree kd vd t m) (hfuel : 2 * m.size < fuel) :
    ∃ tree', pTreeClear fuel tree = some tree' ∧
      Represents tree' kd vd .nil (.empty : SortedMap c ppointer) ∧
      tree'.mem.world = notifiedAll kd vd m.entries tree.mem.world := by
  by_cases hroot : tree.mem.root = NULL
  · have ht := h.root_eq_null.1 hroot
    subst ht
    have hm : m = .empty := SortedMap.ext h.entries_of_nil
    exact ⟨tree, by simp [pTreeClear, hroot], hm ▸ h, by rw [h.entries_of_nil]; rfl⟩
  · have hnd := h.holds.holds.nodup
    simp only [Ctx.addrs, List.append_nil, List.nodup_cons] at hnd
    have hsize := h.holds.size_eq
    have hlinks := leftLinks_le t
    obtain ⟨s', hrun, hs'⟩ := h.holds.holds.threaded.run_clear fuel kd vd tree.nnodes (m := fuel) hnd.2 hnd.1
      (by omega) (by omega)
    rw [← show tree.mem.root = t.ptr from h.holds.holds.root_eq, ← h.key_destroy_eq, ← h.value_destroy_eq] at hrun
    refine ⟨{ tree with mem := s'.withRoot NULL, nnodes := tree.nnodes - Int32.ofNat t.size },
      by simp [pTreeClear, hroot, hrun], ⟨h.compare_eq, h.key_destroy_eq, h.value_destroy_eq, ?_, ?_⟩, ?_⟩
    · exact ⟨⟨trivial, trivial, rfl, by simp [AddrTree.addrs, Ctx.addrs]⟩, type.balanced_nil, rfl⟩
    · show tree.nnodes - Int32.ofNat t.size = _
      rw [h.nnodes_eq, hsize, Int32.sub_self]
      rfl
    · rw [← h.holds.pairs_eq]
      exact hs'.world

end Represents

/-! ## The refinement of a finite map -/

/-- What a call does to the map and the outside world, and what it returns.  Which objects an
    insertion, a removal or a clearing passes to the destroy functions is left open here. -/
inductive MapCall {ω : Type} {c : Comparison ppointer} :
    SortedMap c ppointer × ω → TreeCall ω → TreeResult ω → SortedMap c ppointer × ω → Prop
  | insert {m w w' key value mem} :
      MapCall (m, w) (.insert key value mem) .void (m.insert key value, w')
  | remove {m w w' key} : MapCall (m, w) (.remove key) (.bool (m.contains key)) (m.erase key, w')
  | lookup {m w key} : MapCall (m, w) (.lookup key) (.pointer ((m.find? key).getD NULL)) (m, w)
  | getNnodes {m w n} : (m.size < 2 ^ 31 → n.toInt = m.size) → MapCall (m, w) .getNnodes (.int n) (m, w)
  | foreach {m w w' traverse_func} :
      w' = m.entries.foldl (fun w p => (traverse_func p.1 p.2 w).2) w →
      MapCall (m, w) (.foreach traverse_func) (.world w') (m, w')
  | clear {m w w'} : MapCall (m, w) .clear .void (.empty, w')

/-- A callback that never stops is called for each binding. -/
theorem visitAll_of_neverStops {traverse_func : PTraverseFunc ω}
    (hf : ∀ key value w, (traverse_func key value w).1 = FALSE) (ps : List (ppointer × ppointer)) (w : ω) :
    visitAll traverse_func ps (FALSE, w) = (FALSE, ps.foldl (fun w p => (traverse_func p.1 p.2 w).2) w) := by
  induction ps generalizing w with
  | nil => rfl
  | cons p ps ih =>
    have hp : visitPair traverse_func (FALSE, w) p = (FALSE, (traverse_func p.1 p.2 w).2) := by
      rw [visitPair, if_pos rfl]
      exact Prod.ext (hf _ _ _) rfl
    rw [visitAll, List.foldl_cons, hp, List.foldl_cons]
    exact ih _

/-- The tree represents a map, which `n` more calls do not let grow beyond `N` bindings. -/
def RepresentsMap (kd vd : Option (PDestroyFunc ω)) (N n : ℕ) (tree : PTree type ω)
    (a : SortedMap c ppointer × ω) : Prop :=
  (∃ t, Represents tree kd vd t a.1) ∧ tree.mem.world = a.2 ∧ a.1.size + n ≤ N

theorem representsMap_new (N : ℕ) (kd vd : Option (PDestroyFunc ω))
    (cell : ppointer → Option (PTreeBaseNode type.Ext)) (world : ω) :
    RepresentsMap kd vd N N (pTreeNewFull type c.cmp kd vd cell world)
      ((.empty : SortedMap c ppointer), world) :=
  ⟨⟨.nil, represents_new type c kd vd cell world⟩, rfl, Nat.le_of_eq (Nat.zero_add N)⟩

/-- One call on a tree that represents a map. -/
theorem treeCall_mapCall {n N : ℕ} (hfuel : 2 * N < fuel) {call : TreeCall ω} {a : SortedMap c ppointer × ω}
    (h : RepresentsMap kd vd N (n + 1) tree a) (hok : Allocates tree call ∧ NeverStops call) :
    ∃ o tree' a', treeCall fuel call tree = some (o, tree') ∧ MapCall a call o a' ∧
      RepresentsMap kd vd N n tree' a' := by
  obtain ⟨m, w⟩ := a
  obtain ⟨⟨t, h⟩, rfl, hsize⟩ := h
  dsimp only at hsize h
  have hlt : m.size < fuel := by omega
  have hlt₂ : 2 * m.size < fuel := by omega
  cases call with
  | insert key value mem =>
    obtain ⟨tree', t', hrun, h', -⟩ := h.insert key value hlt hok.1.1 hok.1.2
    refine ⟨_, tree', (m.insert key value, tree'.mem.world), by simp [treeCall, hrun], .insert, ⟨t', h'⟩, rfl, ?_⟩
    have hins := m.size_insert key value
    show (m.insert key value).size + n ≤ N
    split_ifs at hins <;> omega
  | remove key =>
    obtain ⟨tree', t', hrun, h', -⟩ := h.remove key hlt
    refine ⟨_, tree', (m.erase key, tree'.mem.world), by simp [treeCall, hrun], .remove, ⟨t', h'⟩, rfl, ?_⟩
    have her := m.size_erase key
    show (m.erase key).size + n ≤ N
    split_ifs at her <;> omega
  | lookup key =>
    have hrun := h.lookup key hlt
    exact ⟨_, tree, (m, tree.mem.world), by simp [treeCall, hrun], .lookup, ⟨t, h⟩, rfl, Nat.le_of_lt hsize⟩
  | getNnodes =>
    refine ⟨_, tree, (m, tree.mem.world), rfl, .getNnodes fun hm => ?_, ⟨t, h⟩, rfl, Nat.le_of_lt hsize⟩
    rw [pTreeGetNnodes, h.nnodes_eq]
    exact Int32.toInt_ofNat_of_lt hm
  | foreach traverse_func =>
    have hall := visitAll_of_neverStops hok.2 m.entries tree.mem.world
    obtain ⟨tree', hrun, h', hw⟩ :=
      h.foreach traverse_func hlt₂ (by rw [hall]; exact fun h => absurd h.symm true_ne_false)
    rw [hall] at hw
    exact ⟨_, tree', (m, tree'.mem.world), by simp [treeCall, hrun], .foreach hw, ⟨t, h'⟩, rfl, Nat.le_of_lt hsize⟩
  | clear =>
    obtain ⟨tree', hrun, h', -⟩ := h.clear hlt₂
    exact ⟨_, tree', (.empty, tree'.mem.world), by simp [treeCall, hrun], .clear, ⟨.nil, h'⟩, rfl,
      show 0 + n ≤ N by omega⟩

end

/-- **The tree is a finite map.**  The results of every sequence of calls on a new tree, of any
    type and for any order of the keys, are those of a finite map. -/
theorem pTree_mapCalls (type : PTreeType) (c : Comparison ppointer) {ω : Type} (kd vd : Option (PDestroyFunc ω))
    (cell : ppointer → Option (PTreeBaseNode type.Ext)) (world : ω) (calls : List (TreeCall ω)) {fuel : ℕ}
    (hfuel : 2 * calls.length < fuel)
    (hok : Along (treeCall fuel) (fun tree call => Allocates tree call ∧ NeverStops call) calls
      (pTreeNewFull type c.cmp kd vd cell world)) :
    ∃ results tree a, run (treeCall fuel) calls (pTreeNewFull type c.cmp kd vd cell world) =
        some (results, tree) ∧
      SpecRun MapCall ((.empty : SortedMap c ppointer), world) calls results a := by
  obtain ⟨results, tree, a, hrun, hspec, -⟩ := simulates hok
    (representsMap_new calls.length kd vd cell world) fun _ _ _ _ h hok => treeCall_mapCall hfuel h hok
  exact ⟨results, tree, a, hrun, hspec⟩

/-- Keys that are compared as numbers. -/
def numberOrder : Comparison ppointer where
  cmp a b := (a : ℤ) - b
  swap a b := by omega
  le_trans a b c := by omega

theorem pTree_mapCalls_avl : ∃ results tree a,
    run (treeCall 12) [.insert 2 12 101, .insert 1 11 102, .foreach fun _ value n => (FALSE, n + value),
        .remove 2, .clear] (pTreeNewFull .avl numberOrder.cmp none none (fun _ => none) 0) = some (results, tree) ∧
    SpecRun MapCall ((.empty : SortedMap numberOrder ppointer), 0) [.insert 2 12 101, .insert 1 11 102,
      .foreach fun _ value n => (FALSE, n + value), .remove 2, .clear] results a :=
  pTree_mapCalls .avl numberOrder none none (fun _ => none) 0 [.insert 2 12 101, .insert 1 11 102,
      .foreach fun _ value n => (FALSE, n + value), .remove 2, .clear] (by decide)
    ⟨⟨⟨by decide, rfl⟩, trivial⟩, ⟨⟨by decide, rfl⟩, trivial⟩, ⟨trivial, fun _ _ _ => rfl⟩, ⟨trivial, trivial⟩,
      ⟨trivial, trivial⟩, trivial⟩

/-! ## The 32-bit counter

After `n` insertions of new keys the counter is `n` modulo `2 ^ 32`, as a signed number. -/

section
variable {ω : Type} {s s' : Mem Unit ω} {b : ppointer}

/-- An insertion allocates at most the address that comes with it. -/
theorem get_of_run_pTreeBstInsert {fuel : ℕ} {compare_func : PCompareDataFunc} {kd vd : Option (PDestroyFunc ω)}
    {key value mem : ppointer} {r : Bool}
    (hrun : (pTreeBstInsert fuel compare_func kd vd key value mem).run s = some (r, s'))
    (hb : s.get b = none) (hne : b ≠ mem) : s'.get b = none := by
  have hfree : ∀ {α : Type} {s s' : Mem Unit ω} {x : α} (m : TreeM Unit ω α) [Local m],
      m.run s = some (x, s') → s.get b = none → s'.get b = none :=
    fun m _ hrun hb => (Local.frame (m := m) ⟨0, 0, 0, 0, ()⟩ hb hrun).1
  simp only [pTreeBstInsert, StateT.run_bind, Option.bind_eq_bind, Option.bind_eq_some_iff] at hrun
  obtain ⟨⟨⟨cur, par⟩, s₁⟩, hfind, ⟨p, s₂⟩, hread, hrun⟩ := hrun
  have h₂ := hfree _ hread (hfree _ hfind hb)
  dsimp only at hrun
  by_cases hp : p = NULL
  · rw [if_pos hp] at hrun
    simp only [StateT.run_bind, Option.bind_eq_bind, Option.bind_eq_some_iff] at hrun
    obtain ⟨⟨u, s₃⟩, hwrite, hrun⟩ := hrun
    have h₃ := hfree _ hwrite h₂
    dsimp only at hrun
    by_cases hmem : mem = NULL
    · rw [if_pos hmem] at hrun
      exact hfree _ hrun h₃
    · rw [if_neg hmem] at hrun
      have hs' : s' = s₃.store mem (some ⟨NULL, NULL, key, value, ()⟩) := by
        cases hrun
        rfl
      rw [hs', Mem.get_store_of_ne _ _ hne, h₃]
  · rw [if_neg hp] at hrun
    exact hfree _ hrun h₂

theorem run_of_pTreeInsert {type : PTreeType} {tree tree' : PTree type ω} {fuel : ℕ} {key value mem : ppointer}
    (h : pTreeInsert fuel tree key value mem = some tree') :
    ∃ r, (insertNodeFunc fuel type tree.compare_func tree.key_destroy_func
      tree.value_destroy_func key value mem).run tree.mem = some (r, tree'.mem) := by
  obtain ⟨⟨r, s⟩, hrun, h⟩ := Option.bind_eq_some_iff.1 h
  refine ⟨r, ?_⟩
  rw [hrun]
  cases r <;> (cases h; rfl)

end

/-- `n` insertions of new keys in increasing order. -/
def ascendingInserts (n : ℕ) : List (TreeCall Unit) :=
  (List.range n).map fun i => .insert (i + 1) (i + 1) (i + 1)

theorem run_ascendingInserts {fuel : ℕ} (n : ℕ) (hfuel : n < fuel) :
    ∃ results tree t, ∃ m : SortedMap numberOrder ppointer,
      run (treeCall fuel) (ascendingInserts n)
          (pTreeNewFull .binary numberOrder.cmp none none (fun _ => none) ()) = some (results, tree) ∧
        Represents tree none none t m ∧ m.entries = (List.range n).map (fun i => (i + 1, i + 1)) ∧
        ∀ b, n < b → tree.mem.get b = none := by
  induction n with
  | zero =>
    refine ⟨[], _, .nil, .empty, rfl, represents_new .binary numberOrder none none _ (), rfl, fun b _ => ?_⟩
    simp [pTreeNewFull, Mem.get]
  | succ n ih =>
    obtain ⟨results, tree, t, m, hrun, h, hm, hfree⟩ := ih (by omega)
    have hsize : m.size = n := by simp [SortedMap.size, hm]
    have hlt : m.size < fuel := by omega
    obtain ⟨tree', t', hins, h', -⟩ := h.insert (n + 1) (n + 1) hlt (Nat.succ_ne_zero n) (hfree (n + 1) (by omega))
    have hsplit : SplitAt numberOrder (n + 1) m.entries m.entries [] [] := by
      refine ⟨by simp, fun p hp => ?_, by simp, by simp⟩
      rw [hm] at hp
      obtain ⟨i, hi, rfl⟩ := List.mem_map.1 hp
      have := List.mem_range.1 hi
      simp only [numberOrder]
      omega
    have hstep : treeCall fuel (.insert (n + 1) (n + 1) (n + 1)) tree = some (.void, tree') := by
      simp [treeCall, hins]
    refine ⟨results ++ [.void], tree', t', m.insert (n + 1) (n + 1), ?_, h', ?_, fun b hb => ?_⟩
    · rw [ascendingInserts, List.range_succ, List.map_append]
      exact run_append hrun (run_cons hstep)
    · rw [hsplit.insert_entries, hm, List.range_succ, List.map_append]
      rfl
    · obtain ⟨r, hrun'⟩ := run_of_pTreeInsert hins
      exact get_of_run_pTreeBstInsert hrun' (hfree b (by omega)) (Nat.ne_of_gt hb)

/-- **The counter overflows**: after 2147483648 insertions of different keys it is negative. -/
theorem pTreeGetNnodes_overflow :
    ∃ results tree t, ∃ m : SortedMap numberOrder ppointer,
      run (treeCall (2 ^ 31 + 1)) (ascendingInserts (2 ^ 31))
          (pTreeNewFull .binary numberOrder.cmp none none (fun _ => none) ()) = some (results, tree) ∧
        Represents tree none none t m ∧ m.size = 2 ^ 31 ∧ (pTreeGetNnodes tree).toInt = -2 ^ 31 := by
  obtain ⟨results, tree, t, m, hrun, h, hm, -⟩ := run_ascendingInserts (2 ^ 31) (Nat.lt_succ_self _)
  have hsize : m.size = 2 ^ 31 := by rw [SortedMap.size, hm, List.length_map, List.length_range]
  refine ⟨results, tree, t, m, hrun, h, hsize, ?_⟩
  rw [pTreeGetNnodes, h.nnodes_eq, hsize]
  rfl

end Plibsys
