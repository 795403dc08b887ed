/-
  The balance of red-black and AVL trees after any insertions and removals, and what follows
  for the height.
-/
import Mathlib.Data.Nat.Fib.Basic
import Mathlib.Data.Nat.Log
import Plibsys.Tree.Calls

namespace Plibsys

open Looping Linked SortedMaps Runs

/-! ## Runs of insertions and removals -/

/-- A call of `insert_node_func` or `remove_node_func`.  With an insertion comes what `p_malloc0`
    returns if it is called, `NULL` if it fails. -/
inductive NodeCall where
  | insert (key value mem : ppointer)
  | remove (key : ppointer)

section
variable {type : PTreeType} {ω : Type} (fuel : ℕ) (kd vd : Option (PDestroyFunc ω))

def nodeCall (type : PTreeType) (compare_func : PCompareDataFunc) :
    NodeCall → Mem type.Ext ω → Option (Bool × Mem type.Ext ω)
  | .insert key value mem => (insertNodeFunc fuel type compare_func kd vd key value mem).run
  | .remove key => (removeNodeFunc fuel type compare_func kd vd key).run

/-- There is no memory for a new node, or the address for it is not in use. -/
def NodeAllocates (s : Mem type.Ext ω) : NodeCall → Prop
  | .insert _ _ mem => mem = NULL ∨ s.get mem = none
  | .remove _ => True

variable {fuel kd vd} {c : Comparison ppointer} {s : Mem type.Ext ω}

/-- The memory holds a map, which `n` more calls do not let grow beyond `N` bindings. -/
def HoldsSomeMap (type : PTreeType) (c : Comparison ppointer) (N n : ℕ) (s : Mem type.Ext ω) : Prop :=
  ∃ t, ∃ m : SortedMap c ppointer, HoldsMap type s t m ∧ m.size + n ≤ N

/-- One call ends, with a balanced search tree. -/
theorem run_nodeCall {n N : ℕ} (hfuel : N < fuel) {call : NodeCall} (h : HoldsSomeMap type c N (n + 1) s)
    (hok : NodeAllocates s call) :
    ∃ b s', nodeCall fuel kd vd type c.cmp call s = some (b, s') ∧ HoldsSomeMap type c N n s' := by
  obtain ⟨t, m, h, hsize⟩ := h
  have hlt : m.size < fuel := by omega
  cases call with
  | insert key value mem =>
    have hinsert : (m.insert key value).size + n ≤ N := by
      have := m.size_insert key value
      split_ifs at this <;> omega
    by_cases h0 : mem = NULL
    · subst h0
      obtain ⟨s', t', hrun, h'⟩ := h.run_insertNodeFunc_null kd vd key value hlt
      refine ⟨false, s', hrun, ?_⟩
      split at h'
      · exact ⟨t', m.insert key value, h', hinsert⟩
      · obtain ⟨rfl, rfl⟩ := h'
        exact ⟨t', m, h, by omega⟩
    · obtain ⟨s', t', hrun, h', -⟩ := h.run_insertNodeFunc kd vd key value hlt h0 (hok.resolve_left h0)
      exact ⟨_, s', hrun, t', m.insert key value, h', hinsert⟩
  | remove key =>
    obtain ⟨s', t', hrun, h', -⟩ := h.run_removeNodeFunc kd vd key hlt
    refine ⟨_, s', hrun, t', m.erase key, h', ?_⟩
    have := m.size_erase key
    split_ifs at this <;> omega

/-- No call dereferences `NULL`, and the calls end with a balanced search tree. -/
theorem run_nodeCalls {cell : ppointer → Option (PTreeBaseNode type.Ext)} {world : ω} {calls : List NodeCall}
    (hfuel : calls.length < fuel)
    (hok : Along (nodeCall fuel kd vd type c.cmp) NodeAllocates calls ⟨NULL, cell, world⟩) :
    ∃ results s t, ∃ m : SortedMap c ppointer,
      run (nodeCall fuel kd vd type c.cmp) calls ⟨NULL, cell, world⟩ = some (results, s) ∧
        HoldsMap type s t m := by
  have h₀ : HoldsSomeMap type c calls.length calls.length ⟨NULL, cell, world⟩ :=
    ⟨.nil, .empty, (represents_new type c kd vd cell world).holds, Nat.le_of_eq (Nat.zero_add _)⟩
  obtain ⟨results, s, hrun, t, m, h, -⟩ := invariant hok h₀ fun _ _ _ h hok => run_nodeCall hfuel h hok
  exact ⟨results, s, t, m, hrun, h⟩

end

/-! ## Red-black trees -/

theorem RbTree.height_le {n : ℕ} {t : RbNode} (h : RbTree .black n t) :
    t.height ≤ 2 * Nat.log 2 (t.size + 1) := by
  obtain ⟨hsize, hheight⟩ := h.size_height
  have := Nat.le_log_of_pow_le (by decide) hsize
  simp only [reduceCtorEq, if_false] at hheight
  omega

/-- **Red-black invariant.** -/
theorem pTreeRb_redBlack (c : Comparison ppointer) {ω : Type} (kd vd : Option (PDestroyFunc ω))
    (cell : ppointer → Option (PTreeBaseNode (ParentExt PTreeRBColor))) (world : ω) (calls : List NodeCall)
    {fuel : ℕ} (hfuel : calls.length < fuel)
    (hok : Along (nodeCall fuel kd vd .rb c.cmp) NodeAllocates calls ⟨NULL, cell, world⟩) :
    ∃ results s t, run (nodeCall fuel kd vd .rb c.cmp) calls ⟨NULL, cell, world⟩ = some (results, s) ∧
      Holds (parentLayout PTreeRBColor) s [] t ∧ (pairs t).Pairwise (fun p q => c.cmp p.1 q.1 < 0) ∧
      RedBlack t ∧ ∀ p ∈ t.paths, p.length ≤ 2 * Nat.log 2 (t.size + 1) := by
  obtain ⟨results, s, t, m, hrun, h⟩ := run_nodeCalls hfuel hok
  obtain ⟨n, hbal⟩ := h.balanced
  exact ⟨results, s, t, hrun, h.holds, h.pairs_eq ▸ m.sorted, hbal.redBlack, fun p hp =>
    Nat.le_trans (AddrTree.length_le_height hp) hbal.height_le⟩

theorem pTreeRb_redBlack_run : ∃ results s t,
    run (nodeCall 6 none none .rb numberOrder.cmp) [.insert 1 11 101, .insert 2 12 102,
      .insert 4 14 NULL, .insert 3 13 103, .remove 1] ⟨NULL, fun _ => none, ()⟩ = some (results, s) ∧
      Holds (parentLayout PTreeRBColor) s [] t ∧ (pairs t).Pairwise (fun p q => numberOrder.cmp p.1 q.1 < 0) ∧
      RedBlack t ∧ ∀ p ∈ t.paths, p.length ≤ 2 * Nat.log 2 (t.size + 1) :=
  pTreeRb_redBlack numberOrder none none (fun _ => none) () [.insert 1 11 101, .insert 2 12 102,
    .insert 4 14 NULL, .insert 3 13 103, .remove 1] (by decide)
    ⟨.inr rfl, .inr rfl, .inl rfl, .inr rfl, trivial, trivial⟩

/-! ## AVL trees -/

/-- A balanced tree of height `h` has at least `Fib (h + 2) - 1` nodes. -/
theorem AvlBalanced.fib_le {t : AvlNode} (h : AvlBalanced t) : Nat.fib (t.height + 2) ≤ t.size + 1 := by
  induction t with
  | nil => decide
  | node a l x r ihl ihr =>
    obtain ⟨htag, hlow, hhigh, hl, hr⟩ := h
    have hl := ihl hl
    have hr := ihr hr
    have hmono : ∀ i j, i ≤ j → Nat.fib i ≤ Nat.fib j := fun i j hij => Nat.fib_mono hij
    have hadd : Nat.fib (max l.height r.height + 1 + 2) =
        Nat.fib (max l.height r.height + 1) + Nat.fib (max l.height r.height + 2) := Nat.fib_add_two
    rw [AddrTree.height, AddrTree.size, hadd]
    rcases Nat.le_total l.height r.height with hle | hle
    · have := hmono (r.height + 1) (l.height + 2) (by omega)
      rw [Nat.max_eq_right hle]
      omega
    · have := hmono (l.height + 1) (r.height + 2) (by omega)
      rw [Nat.max_eq_left hle]
      omega

/-- **AVL invariant.** -/
theorem pTreeAvl_balanced (c : Comparison ppointer) {ω : Type} (kd vd : Option (PDestroyFunc ω))
    (cell : ppointer → Option PTreeAVLNode) (world : ω) (calls : List NodeCall)
    {fuel : ℕ} (hfuel : calls.length < fuel)
    (hok : Along (nodeCall fuel kd vd .avl c.cmp) NodeAllocates calls ⟨NULL, cell, world⟩) :
    ∃ results s t, run (nodeCall fuel kd vd .avl c.cmp) calls ⟨NULL, cell, world⟩ = some (results, s) ∧
      Holds (parentLayout pint) s [] t ∧ (pairs t).Pairwise (fun p q => c.cmp p.1 q.1 < 0) ∧
      AvlBalanced t ∧ Nat.fib (t.height + 2) - 1 ≤ t.size := by
  obtain ⟨results, s, t, m, hrun, h⟩ := run_nodeCalls hfuel hok
  have hbal : AvlBalanced t := h.balanced
  exact ⟨results, s, t, hrun, h.holds, h.pairs_eq ▸ m.sorted, hbal, by have := hbal.fib_le; omega⟩

theorem pTreeAvl_balanced_run : ∃ results s t,
    run (nodeCall 6 none none .avl numberOrder.cmp) [.insert 1 11 101, .insert 2 12 102,
      .insert 4 14 NULL, .insert 3 13 103, .remove 1] ⟨NULL, fun _ => none, ()⟩ = some (results, s) ∧
      Holds (parentLayout pint) s [] t ∧ (pairs t).Pairwise (fun p q => numberOrder.cmp p.1 q.1 < 0) ∧
      AvlBalanced t ∧ Nat.fib (t.height + 2) - 1 ≤ t.size :=
  pTreeAvl_balanced numberOrder none none (fun _ => none) () [.insert 1 11 101, .insert 2 12 102,
    .insert 4 14 NULL, .insert 3 13 103, .remove 1] (by decide)
    ⟨.inr rfl, .inr rfl, .inl rfl, .inr rfl, trivial, trivial⟩

end Plibsys
