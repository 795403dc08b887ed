/-
  What the two traversals without a stack do, on a tree of any shape.
-/
import Plibsys.Tree.Calls

namespace Plibsys

open Looping Linked

variable {ω τ E : Type} {type : PTreeType} {tree : PTree type ω} {t u l r : AddrTree (Item τ)} {x : Item τ}
  {fuel a i k n : ℕ}

/-! ## `p_tree_foreach` -/

/-- The calls of a callback on the bindings in turn, as long as they return `FALSE`. -/
def callsUntil (traverse_func : PTraverseFunc ω) : List (ppointer × ppointer) → ω → List (ppointer × ppointer)
  | [], _ => []
  | p :: ps, w =>
    p :: if (traverse_func p.1 p.2 w).1 = FALSE then callsUntil traverse_func ps (traverse_func p.1 p.2 w).2
      else []

/-- The outside world after some calls of the callback. -/
def calledAll (traverse_func : PTraverseFunc ω) (ps : List (ppointer × ppointer)) (w : ω) : ω :=
  ps.foldl (fun w p => (traverse_func p.1 p.2 w).2) w

theorem visitAll_eq (traverse_func : PTraverseFunc ω) (ps : List (ppointer × ppointer)) (w : ω) :
    (visitAll traverse_func ps (FALSE, w)).2 = calledAll traverse_func (callsUntil traverse_func ps w) w := by
  induction ps generalizing w with
  | nil => rfl
  | cons p ps ih =>
    have hcall : visitAll traverse_func (p :: ps) (FALSE, w) =
      visitAll traverse_func ps (traverse_func p.1 p.2 w) := rfl
    rw [hcall, callsUntil]
    have hcons : ∀ qs, calledAll traverse_func (p :: qs) w =
      calledAll traverse_func qs (traverse_func p.1 p.2 w).2 :=
      fun _ => rfl
    rw [hcons]
    rcases traverse_func p.1 p.2 w with ⟨stop, w'⟩
    by_cases hstop : stop = FALSE
    · rw [hstop, ih, if_pos rfl]
    · rw [visitAll_stop _ _ hstop, if_neg hstop]
      rfl

/-- **A traversal calls the callback on the bindings in order**, up to the first one on which it returns
    something else than `FALSE`, and leaves the nodes as they were.  If that is `TRUE`, the counter of the
    open threads must not wrap. -/
theorem pTreeForeach_inorder {t : AddrTree (Item type.Tag)} (h : Holds type.layout tree.mem [] t)
    (traverse_func : PTraverseFunc ω) (hfuel : 2 * t.size < fuel)
    (hcounter : (visitAll traverse_func (pairs t) (FALSE, tree.mem.world)).1 = TRUE → leftDepth t < 2 ^ 32) :
    pTreeForeach fuel tree traverse_func = some { tree with
      mem := tree.mem.withWorld
        (calledAll traverse_func (callsUntil traverse_func (pairs t) tree.mem.world) tree.mem.world) } := by
  rw [← visitAll_eq]
  by_cases hroot : tree.mem.root = NULL
  · obtain rfl : t = .nil := h.ptr_eq_null.1 (h.root_eq.symm.trans hroot)
    simp [pTreeForeach, hroot]
    rfl
  · simp [pTreeForeach, hroot, h.run_foreach hfuel hcounter]

/-! ### A counter that wraps -/

/-- A tree of left children, with the keys `1` to `n`. -/
def leftChain : ℕ → AddrTree (Item Unit)
  | 0 => .nil
  | n + 1 => .node (n + 1) (leftChain n) ⟨n + 1, NULL, ()⟩ .nil

/-- The tree of left children in memory, with threads from the nodes above `k` to their parents. -/
def chainMem (n k : ℕ) : Mem Unit Unit where
  root := n
  cell p := if p ≤ n then some ⟨p - 1, if k ≤ p ∧ p < n then p + 1 else NULL, p, NULL, ()⟩ else none
  world := ()

theorem chainMem_get {p : ℕ} (h0 : 0 < p) (hp : p ≤ n) :
    (chainMem n k).get p = some ⟨p - 1, if k ≤ p ∧ p < n then p + 1 else NULL, p, NULL, ()⟩ := by
  rw [Mem.get, if_neg (Nat.ne_of_gt h0)]
  exact if_pos hp

theorem mem_leftChain {p : ℕ} : p ∈ (leftChain n).addrs ↔ 0 < p ∧ p ≤ n := by
  induction n with
  | zero => simp [leftChain, AddrTree.addrs]; omega
  | succ n ih =>
    simp only [leftChain, AddrTree.addrs, List.append_nil, List.mem_cons, ih]
    omega

theorem nodup_leftChain : (leftChain n).addrs.Nodup := by
  induction n with
  | zero => exact List.nodup_nil
  | succ n ih =>
    simp only [leftChain, AddrTree.addrs, List.append_nil, List.nodup_cons, mem_leftChain]
    exact ⟨by omega, ih⟩

theorem size_leftChain : (leftChain n).size = n := by
  induction n with
  | zero => rfl
  | succ n ih => rw [leftChain, AddrTree.size, ih, AddrTree.size, Nat.add_zero]

theorem ptr_leftChain : (leftChain n).ptr = n := by cases n <;> rfl

/-- Below the threads the tree is as it was. -/
theorem threaded_leftChain {m : ℕ} (hm : m ≤ n) (hk : m < k) : Threaded (chainMem n k) NULL (leftChain m) := by
  induction m with
  | zero => trivial
  | succ m ih =>
    refine ⟨⟨_, chainMem_get (Nat.succ_pos m) hm, ?_, ?_, rfl⟩, ih (by omega) (by omega), trivial⟩
    · exact ptr_leftChain.symm
    · exact if_neg (by omega)

theorem chainMem_thread {m : ℕ} (h0 : 0 < m) (hm : m < n) :
    ((chainMem n (m + 1)).modify m fun c => { c with right := m + 1 }) = chainMem n m := by
  refine congrArg (fun cell => (⟨n, cell, ()⟩ : Mem Unit Unit)) (funext fun p => ?_)
  rw [Function.update_apply]
  split
  · rename_i hp
    subst hp
    simp [chainMem, hm, Nat.le_of_lt hm]
  · rename_i hp
    have hiff : m + 1 ≤ p ∧ p < n ↔ m ≤ p ∧ p < n :=
      ⟨fun h => ⟨Nat.le_of_succ_le h.1, h.2⟩, fun h => ⟨Nat.lt_of_le_of_ne h.1 (Ne.symm hp), h.2⟩⟩
    simp only [chainMem, hiff]

/-- The first arrivals, from the root down. -/
theorem iters_leftChain (traverse_func : PTraverseFunc Unit) (hfuel : n ≤ fuel) {j : ℕ} (hj : j < n) :
    Iters (pTreeForeachStep fuel traverse_func) j ((n, 0, FALSE), chainMem n n)
      ((n - j, Int32.ofNat j, FALSE), chainMem n (n - j)) := by
  induction j with
  | zero => exact .refl
  | succ j ih =>
    obtain ⟨m, hm⟩ : ∃ m, n - j = m + 1 := ⟨n - j - 1, by omega⟩
    have hbefore := ih (by omega)
    rw [hm] at hbefore
    have hm' : n - (j + 1) = m := by omega
    have hne : leftChain m ≠ .nil := by
      cases m with
      | zero => omega
      | succ m => exact nofun
    have hlast : lastPtr (leftChain m) = m := by cases m <;> rfl
    have hstep := run_foreachStep_thread fuel traverse_func (Int32.ofNat j)
      (s := chainMem n (m + 1)) (l := leftChain m) (FALSE, ()) (Nat.succ_ne_zero m)
      (chainMem_get (Nat.succ_pos m) (by omega)) ptr_leftChain.symm hne
      (threaded_leftChain (by omega) (Nat.lt_succ_self m)) (fun h => Nat.lt_irrefl 0 (mem_leftChain.1 h).1)
      (fun h => Nat.not_succ_le_self m (mem_leftChain.1 h).2) (by rw [size_leftChain]; omega)
    rw [hlast, chainMem_thread (by omega) (by omega), ptr_leftChain] at hstep
    rw [hm', Int32.ofNat_add]
    exact hbefore.trans (.one hstep)

/-- A callback that stops the traversal at once. -/
def stopAtOnce : PTraverseFunc Unit := fun _ _ _ => (TRUE, ())

/-- The first node stops the traversal; it is left as soon as the counter is zero again. -/
theorem foreach_leftChain (hn : 2 < n) (hfuel : n < fuel) (hwrap : Int32.ofNat (n - 2) = 0) :
    (loop (pTreeForeachStep fuel stopAtOnce) fuel (n, 0, FALSE)).run (chainMem n n) = some ((), chainMem n 2) := by
  have hdown := iters_leftChain stopAtOnce (n := n) (j := n - 1) (Nat.le_of_lt hfuel) (by omega)
  rw [show n - (n - 1) = 1 by omega] at hdown
  have hvisit := run_foreachStep_visit fuel stopAtOnce (Int32.ofNat (n - 1)) (s := chainMem n 1) (FALSE, ())
    Nat.one_ne_zero (chainMem_get Nat.one_pos (by omega)) rfl (if_pos ⟨Nat.le_refl _, by omega⟩) rfl
  have hback := run_foreachStep_unthread fuel stopAtOnce 0 (s := chainMem n 2) (l := leftChain 1) (TRUE, ())
    (Nat.succ_ne_zero 1) (chainMem_get Nat.two_pos (by omega)) rfl rfl rfl nofun
    (threaded_leftChain (by omega) (by omega)) nodup_leftChain (fun h => Nat.lt_irrefl 0 (mem_leftChain.1 h).1)
    (fun h => absurd (mem_leftChain.1 h).2 (by omega)) (by rw [size_leftChain]; omega)
  have hcount : Int32.ofNat (n - 1) = 0 + 1 := by
    rw [show n - 1 = n - 2 + 1 by omega, Int32.ofNat_add, hwrap]
    rfl
  have hlast : lastPtr (leftChain 1) = 1 := rfl
  rw [hlast, chainMem_thread Nat.one_pos (by omega)] at hback
  rw [hcount] at hdown hvisit
  exact loop_eq (hdown.trans (.one hvisit)) hback (by omega)

/-- A tree of left children, as an object. -/
def leftChainTree (n : ℕ) : PTree .binary Unit where
  mem := chainMem n n
  key_destroy_func := none
  value_destroy_func := none
  compare_func a b := if a < b then -1 else if a = b then 0 else 1
  nnodes := Int32.ofNat n

theorem holds_leftChainTree (n : ℕ) : Holds PTreeType.binary.layout (leftChainTree n).mem [] (leftChain n) := by
  refine ⟨trivial, ?_, ptr_leftChain.symm, ?_⟩
  · have hrep : ∀ m ≤ n, ∀ p, Rep (baseLayout Unit).toLayout (chainMem n n).get p (leftChain m) := by
      intro m
      induction m with
      | zero => exact fun _ _ => trivial
      | succ m ih =>
        intro hm p
        refine ⟨(chainMem_get (Nat.succ_pos m) hm).trans ?_, ih (Nat.le_of_succ_le hm) _, trivial⟩
        rw [if_neg (fun h => Nat.lt_irrefl _ (Nat.lt_of_le_of_lt h.1 h.2)), ptr_leftChain]
        rfl
    exact hrep n (Nat.le_refl n) _
  · rw [Ctx.addrs, List.append_nil, List.nodup_cons]
    exact ⟨fun h => Nat.lt_irrefl 0 (mem_leftChain.1 h).1, nodup_leftChain⟩

theorem keys_leftChain : (pairs (leftChain n)).map Prod.fst = List.range' 1 n := by
  induction n with
  | zero => rfl
  | succ n ih =>
    rw [leftChain, pairs_node, List.map_append, ih, List.range'_concat, Nat.one_mul, Nat.add_comm 1]
    rfl

theorem pTreeForeach_leftChainTree (hn : 2 < n) (hfuel : n < fuel) (hwrap : Int32.ofNat (n - 2) = 0) :
    pTreeForeach fuel (leftChainTree n) stopAtOnce = some { leftChainTree n with mem := chainMem n 2 } := by
  have hrun := foreach_leftChain hn hfuel hwrap
  have hroot : (leftChainTree n).mem.root ≠ NULL := Nat.ne_of_gt (Nat.lt_of_succ_lt (Nat.lt_of_succ_lt hn))
  rw [pTreeForeach, if_neg hroot]
  show Option.bind ((loop (pTreeForeachStep fuel stopAtOnce) fuel (n, 0, FALSE)).run (chainMem n n)) _ = _
  rw [hrun]
  rfl

theorem right_chainMem (hn : 2 < n) : ((leftChainTree n).mem.get 2).map (·.right) = some NULL ∧
    ((chainMem n 2).get 2).map (·.right) = some 3 := by
  constructor
  · show ((chainMem n n).get 2).map _ = _
    rw [chainMem_get Nat.two_pos (Nat.le_of_lt hn), if_neg fun h => Nat.not_lt.2 h.1 hn]
    rfl
  · rw [chainMem_get Nat.two_pos (Nat.le_of_lt hn), if_pos ⟨Nat.le_refl 2, hn⟩]
    rfl

theorem pTreeForeach_inorder_two : pTreeForeach 5 (leftChainTree 2) stopAtOnce = some { leftChainTree 2 with
    mem := (leftChainTree 2).mem.withWorld
      (calledAll stopAtOnce (callsUntil stopAtOnce (pairs (leftChain 2)) ()) ()) } :=
  pTreeForeach_inorder (holds_leftChainTree 2) stopAtOnce (by decide) fun _ => by decide

/-- With more than `2 ^ 32` open threads, a traversal that is stopped leaves some of them behind. -/
theorem pTreeForeach_wraps :
    Holds PTreeType.binary.layout (leftChainTree (2 ^ 32 + 2)).mem [] (leftChain (2 ^ 32 + 2)) ∧
      ((pairs (leftChain (2 ^ 32 + 2))).map Prod.fst).Pairwise (· < ·) ∧
      ∀ fuel, 2 ^ 32 + 2 < fuel → ∃ tree, pTreeForeach fuel (leftChainTree (2 ^ 32 + 2)) stopAtOnce = some tree ∧
        ((leftChainTree (2 ^ 32 + 2)).mem.get 2).map (·.right) = some NULL ∧
        (tree.mem.get 2).map (·.right) = some 3 :=
  ⟨holds_leftChainTree _, keys_leftChain ▸ List.pairwise_lt_range', fun _ hfuel =>
    ⟨_, pTreeForeach_leftChainTree (by omega) hfuel (by decide), right_chainMem (by omega)⟩⟩

/-! ## `p_tree_clear` -/

/-- The addresses of the nodes in order. -/
def inorder : AddrTree (Item τ) → List ppointer
  | .nil => []
  | .node a l _ r => inorder l ++ a :: inorder r

theorem inorder_appendRight : inorder (appendRight t u) = inorder t ++ inorder u := by
  induction t with
  | nil => rfl
  | node a l x r _ ihr => rw [appendRight, inorder, inorder, ihr, List.append_assoc, List.cons_append]

section
variable (kd vd : Option (PDestroyFunc ω)) (s₀ : Mem E ω) (t₀ : AddrTree (Item τ))

/-- The first `k` nodes in order have been destroyed in turn and freed, and no others. -/
structure ClearedUpTo (k : ℕ) (s : Mem E ω) : Prop where
  world : s.world = notifiedAll kd vd ((pairs t₀).take k) s₀.world
  get : ∀ b, s.get b = none ↔ s₀.get b = none ∨ b ∈ (inorder t₀).take k

/-- Between two rounds, the nodes that are left form a tree. -/
structure Clearing (k : ℕ) (p : ppointer) (s : Mem E ω) (u : AddrTree (Item τ)) : Prop where
  threaded : Threaded s NULL u
  nodup : u.addrs.Nodup
  null : NULL ∉ u.addrs
  ptr_eq : p = u.ptr
  inorder_eq : inorder u = (inorder t₀).drop k
  pairs_eq : pairs u = (pairs t₀).drop k
  cleared : ClearedUpTo kd vd s₀ t₀ k s

variable {kd vd s₀ t₀} {s s' : Mem E ω} {p p' : ppointer} {nnodes nnodes' : pint}

/-- One round frees the next node, or none. -/
theorem Clearing.step (h : Clearing kd vd s₀ t₀ k p s u) (hfuel : u.size ≤ fuel)
    (hstep : (pTreeClearStep fuel kd vd (p, nnodes)).run s = some (.next (p', nnodes'), s')) :
    ∃ u' k', Clearing kd vd s₀ t₀ k' p' s' u' ∧ u'.size ≤ u.size ∧ (k' = k ∨ k' = k + 1) := by
  obtain ⟨hthreaded, hnd, h0, rfl, hinorder, hpairs, hworld, hget⟩ := h
  cases u with
  | nil => simp [pTreeClearStep] at hstep
  | node a l x r =>
    have hunroll := hthreaded.unroll hnd
    obtain ⟨⟨n, hn, hleft, hright, hpair⟩, hl, hr⟩ := hthreaded
    obtain ⟨hal, har, -, hrn, -⟩ := nodup_addrs_node hnd
    obtain ⟨ha0, hl0, hr0⟩ : NULL ≠ a ∧ NULL ∉ l.addrs ∧ NULL ∉ r.addrs := by
      simpa only [AddrTree.addrs, List.mem_cons, List.mem_append, not_or] using h0
    rw [AddrTree.size] at hfuel
    by_cases hlne : l = .nil
    · -- the node is the first one of those left
      subst hlne
      rw [AddrTree.ptr_node, run_clearStep_free fuel kd vd nnodes (Ne.symm ha0) hn hleft, hright, entry_null,
        hpair,
        Option.some.injEq, Prod.mk.injEq, Iter.next.injEq, Prod.mk.injEq] at hstep
      obtain ⟨⟨rfl, -⟩, rfl⟩ := hstep
      have hnodes : a :: inorder r = (inorder t₀).drop k := hinorder
      have hbindings : x.pair :: pairs r =
        (pairs t₀).drop k := by rw [← hpairs, pairs_node, pairs_nil, List.nil_append]
      refine ⟨r, k + 1, ⟨hr.of_free har _, hrn, hr0, rfl, ?_, ?_, ?_, fun b => ?_⟩, ?_, .inr rfl⟩
      · rw [← List.tail_drop, ← hnodes, List.tail_cons]
      · rw [← List.tail_drop, ← hbindings, List.tail_cons]
      · rw [List.take_add_one, ← List.head?_drop, ← hbindings, notifiedAll, List.foldl_append]
        exact congrArg (notifiedPair kd vd x.pair) hworld
      · rw [List.take_add_one, ← List.head?_drop, ← hnodes, List.mem_append, ← or_assoc, ← hget, Mem.get_store]
        by_cases hb : b = a
        · simp [hb, Ne.symm ha0]
        · simp [hb]
      · rw [AddrTree.size, AddrTree.size]
        omega
    · rw [AddrTree.ptr_node,
        run_clearStep_unroll fuel kd vd nnodes (Ne.symm ha0) hn hleft hlne hl hl0 hal (by omega),
        Option.some.injEq, Prod.mk.injEq, Iter.next.injEq, Prod.mk.injEq] at hstep
      obtain ⟨⟨rfl, -⟩, rfl⟩ := hstep
      have hperm := perm_unroll a l x r
      refine ⟨appendRight l (.node a .nil x r), k,
        ⟨hunroll hlne, hperm.nodup_iff.2 hnd, fun hc => h0 (hperm.mem_iff.1 hc),
        (ptr_unroll hlne).symm, ?_, ?_, hworld, fun b => ?_⟩, Nat.le_of_eq (size_unroll a l x r), .inl rfl⟩
      · rw [inorder_appendRight, ← hinorder]
        rfl
      · rw [pairs_appendRight, ← hpairs, pairs_node, pairs_node]
        rfl
      · rw [← hget, Mem.get_modify_eq_none, Mem.get_modify_eq_none]

variable (kd vd) in
/-- After any number of rounds, some first nodes have been cleared. -/
theorem Clearing.iters {e e' : (ppointer × pint) × Mem E ω} (h : Clearing kd vd s₀ t₀ k e.1.1 e.2 u)
    (hfuel : u.size ≤ fuel) (hi : Iters (pTreeClearStep fuel kd vd) i e e') :
    ∃ u' k', Clearing kd vd s₀ t₀ k' e'.1.1 e'.2 u' ∧ u'.size ≤ fuel := by
  induction hi generalizing k u with
  | refl => exact ⟨u, k, h, hfuel⟩
  | step hb _ ih =>
    obtain ⟨u₁, k₁, h₁, hsize, -⟩ := h.step hfuel hb
    exact ih h₁ (Nat.le_trans hsize hfuel)

end

/-- **A tree of any shape is cleared**: the loop ends, every key and value is destroyed in order, every
    node is freed, and no node is read after that.  Each round frees the next node in order, if any. -/
theorem pTreeClear_inorder {t : AddrTree (Item type.Tag)} (h : Holds type.layout tree.mem [] t)
    (hnnodes : tree.nnodes = Int32.ofNat t.size) (hfuel : 2 * t.size < fuel) :
    (∃ tree', pTreeClear fuel tree = some tree' ∧ tree'.mem.root = NULL ∧ tree'.nnodes = 0 ∧
      tree'.mem.world =
        notifiedAll tree.key_destroy_func tree.value_destroy_func (pairs t) tree.mem.world ∧
      ∀ b, tree'.mem.get b = if b ∈ t.addrs then none else tree.mem.get b) ∧
    ∀ i (e e' : (ppointer × pint) × Mem type.Ext ω),
      Iters (pTreeClearStep fuel tree.key_destroy_func tree.value_destroy_func) i
        ((tree.mem.root, tree.nnodes), tree.mem) e →
      (pTreeClearStep fuel tree.key_destroy_func tree.value_destroy_func e.1).run e.2 = some (.next e'.1, e'.2) →
      ∃ k k', ClearedUpTo tree.key_destroy_func tree.value_destroy_func tree.mem t k e.2 ∧
        ClearedUpTo tree.key_destroy_func tree.value_destroy_func tree.mem t k' e'.2 ∧ (k' = k ∨ k' = k + 1) := by
  have hnd := h.nodup
  simp only [Ctx.addrs, List.append_nil, List.nodup_cons] at hnd
  have hlinks := leftLinks_le t
  have hroot : tree.mem.root = t.ptr := h.root_eq
  constructor
  · by_cases hnull : tree.mem.root = NULL
    · obtain rfl : t = .nil := h.ptr_eq_null.1 (hroot.symm.trans hnull)
      exact ⟨tree, by simp [pTreeClear, hnull], hnull, hnnodes, rfl, fun b => (if_neg List.not_mem_nil).symm⟩
    · obtain ⟨s', hrun, hworld, -, hget⟩ := h.threaded.run_clear fuel tree.key_destroy_func tree.value_destroy_func
        tree.nnodes (m := fuel) hnd.2 hnd.1 (by omega) (by omega)
      rw [← hroot] at hrun
      refine ⟨{ tree with mem := s'.withRoot NULL, nnodes := tree.nnodes - Int32.ofNat t.size },
        by simp [pTreeClear, hnull, hrun], rfl, ?_, hworld, hget⟩
      show tree.nnodes - Int32.ofNat t.size = 0
      rw [hnnodes, Int32.sub_self]
  · intro i e e' hi hstep
    have hstart : Clearing tree.key_destroy_func tree.value_destroy_func tree.mem t 0 tree.mem.root tree.mem t :=
      ⟨h.threaded, hnd.2, hnd.1, hroot, rfl, rfl, rfl, fun b => (or_iff_left List.not_mem_nil).symm⟩
    obtain ⟨u, k, hk, hsize⟩ := hstart.iters tree.key_destroy_func tree.value_destroy_func (by omega) hi
    obtain ⟨u', k', hk', -, hnext⟩ := hk.step hsize hstep
    exact ⟨k, k', hk.cleared, hk'.cleared, hnext⟩

/-- The same tree with destroy functions that write down what they are called for. -/
def notedTree (n : ℕ) : PTree .binary (List (String × ppointer)) where
  mem := { root := n, cell := (chainMem n n).cell, world := [] }
  key_destroy_func := some fun p noted => noted ++ [("key", p)]
  value_destroy_func := some fun p noted => noted ++ [("value", p)]
  compare_func := (leftChainTree n).compare_func
  nnodes := Int32.ofNat n

theorem pTreeClear_inorder_two : ∃ tree', pTreeClear 5 (notedTree 2) = some tree' ∧ tree'.mem.root = NULL ∧
    tree'.nnodes = 0 ∧ tree'.mem.world = [("key", 1), ("value", NULL), ("key", 2), ("value", NULL)] ∧
    ∀ b, tree'.mem.get b = if b ∈ (leftChain 2).addrs then none else (notedTree 2).mem.get b := by
  have hholds : Holds PTreeType.binary.layout (notedTree 2).mem [] (leftChain 2) := holds_leftChainTree 2
  have hnnodes : (notedTree 2).nnodes = Int32.ofNat (leftChain 2).size := rfl
  exact (pTreeClear_inorder hholds hnnodes (by decide)).1

end Plibsys
