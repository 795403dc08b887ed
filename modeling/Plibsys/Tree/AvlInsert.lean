/-
  Insertion into an AVL tree keeps the AVL property.
-/
import Plibsys.Tree.AvlInvariant

namespace Plibsys

open Looping Linked

variable {ω : Type} {s : Mem (ParentExt pint) ω} {k : AvlPlace} {t A B D S T : AvlNode} {d : Side} {n p q r : ℕ}
  {x y z : Item pint} {f : Frame (Item pint)}

/-! ## The side of the parent -/

theorem run_avlInsertStep (h : Holds (parentLayout _) s (f :: k) t) (ht : t ≠ .nil) :
    (ppTreeAvlBalanceInsertStep t.ptr).run s = (ppTreeAvlBalanceInsertSide f.side t.ptr f.a).run s := by
  have hpar : (parent t.ptr).run s = some (f.a, s) := h.run_parent_ptr ht
  have h0 : f.a ≠ 0 := (h.hooked ht f rfl).1
  have hleft := h.run_left_par
  have hne := h.sib_ne ht
  cases hd : f.side <;> simp only [hd] at hleft
  · simp only [ppTreeAvlBalanceInsertStep, StateT.run_bind, Option.bind_eq_bind, Option.bind_some, hpar, if_neg h0,
      hleft, if_true]
  · simp only [ppTreeAvlBalanceInsertStep, StateT.run_bind, Option.bind_eq_bind, Option.bind_some, hpar, if_neg h0,
      hleft, if_neg hne]

theorem sideBalance_ne (d : Side) : sideBalance d ≠ -sideBalance d := by cases d <;> simp [sideBalance]

theorem sideBalance_ne_zero (d : Side) : sideBalance d ≠ 0 := by cases d <;> simp [sideBalance]

/-! ## The cases of one round -/

/-- Case 1. -/
theorem run_avlInsertSide_rotate₂
    (h : Holds (parentLayout _) s k (.nodeS d p (.nodeS d q A y (.nodeS d r B z D)) x S))
    (hx : x.tag = sideBalance d) (hy : y.tag = -sideBalance d) :
    ∃ s', (ppTreeAvlBalanceInsertSide d q p).run s = some (.done (), s') ∧
      Holds (parentLayout _) s' k (.nodeS d r (.nodeS d q A (y.withTag (restoredBalance z.tag d)) B)
        (z.withTag 0) (.nodeS d p D (x.withTag (restoredBalance z.tag d.other)) S)) ∧
      s'.world = s.world := by
  obtain ⟨s', hrun, h', hw⟩ := ppTreeAvlRotate2_spec h
  refine ⟨s', ?_, h', hw⟩
  simp [ppTreeAvlBalanceInsertSide, h.run_tagS, h.down.run_tagS, hx, hy, hrun]

/-- Case 2. -/
theorem run_avlInsertSide_rotate (h : Holds (parentLayout _) s k (.nodeS d p (.nodeS d q A y B) x S))
    (hx : x.tag = sideBalance d) (hy : y.tag ≠ -sideBalance d) :
    ∃ s', (ppTreeAvlBalanceInsertSide d q p).run s = some (.done (), s') ∧
      Holds (parentLayout _) s' k (.nodeS d q A (y.withTag (y.tag - sideBalance d))
        (.nodeS d p B (x.withTag (sideBalance d - y.tag)) S)) ∧ s'.world = s.world := by
  have h' : Holds (parentLayout _) s k (.nodeS d.other p S x (.nodeS d.other q B y A)) := by
    rw [AddrTree.nodeS_other, AddrTree.nodeS_other]
    exact h
  obtain ⟨s', hrun, h'', hw⟩ := ppTreeAvlRotate_spec h'
  have hother : sideBalance d.other = -sideBalance d := by cases d <;> rfl
  rw [AddrTree.nodeS_other, AddrTree.nodeS_other, hother, ← Int32.sub_eq_add_neg, Int32.neg_sub] at h''
  refine ⟨s', ?_, h'', hw⟩
  simp [ppTreeAvlBalanceInsertSide, h.run_tagS, h.down.run_tagS, hx, hy, hrun]

/-- Case 3. -/
theorem run_avlInsertSide_level (h : Holds (parentLayout _) s k (.nodeS d p T x S))
    (hx : x.tag = -sideBalance d) (a : ℕ) :
    ∃ s', (ppTreeAvlBalanceInsertSide d a p).run s = some (.done (), s') ∧
      Holds (parentLayout _) s' k (.nodeS d p T (x.withTag 0) S) ∧ s'.world = s.world := by
  obtain ⟨s', hrun, h', hw⟩ := h.run_setTagS 0
  refine ⟨s', ?_, h', hw⟩
  have hne := (sideBalance_ne d).symm
  simp [ppTreeAvlBalanceInsertSide, h.run_tagS, hx, hne, hrun]

/-- Case 4. -/
theorem run_avlInsertSide_next (h : Holds (parentLayout _) s k (.nodeS d p T x S)) (hT : T ≠ .nil)
    (hx : x.tag = 0) :
    ∃ s', (ppTreeAvlBalanceInsertSide d T.ptr p).run s = some (.next p, s') ∧
      Holds (parentLayout _) s' k (.nodeS d p T (x.withTag (sideBalance d)) S) ∧ s'.world = s.world := by
  obtain ⟨s', hrun, h', hw⟩ := h.run_setTagS (sideBalance d)
  refine ⟨s', ?_, h', hw⟩
  have hpar := h'.down.run_parent_ptr hT
  have hne := (sideBalance_ne_zero d).symm
  have hne' : (0 : pint) ≠ -sideBalance d := by cases d <;> simp [sideBalance]
  simp [ppTreeAvlBalanceInsertSide, h.run_tagS, hx, hne, hne', hrun, hpar, Ctx.par]

/-! ## The loop -/

/-- The balance factor at the root. -/
def rootBalance : AvlNode → pint
  | .nil => 0
  | .node _ _ x _ => x.tag

theorem rootBalance_nodeS : rootBalance (.nodeS d p T x S) = x.tag := by cases d <;> rfl

/-- What one round does to a tree that has become one higher than its place takes: it completes
    the tree, or the tree of the parent is now one higher. -/
theorem avlInsert_step (h : Holds (parentLayout _) s k t) (hbal : AvlBalanced t) (hn : t.height = n + 1)
    (hk : AvlCtx n k) (hroot : rootBalance t ≠ 0 ∨ n = 0) :
    (∃ s' u, (ppTreeAvlBalanceInsertStep t.ptr).run s = some (.done (), s') ∧
      Holds (parentLayout _) s' [] u ∧ AvlBalanced u ∧ pairs u = pairs (Ctx.plug k t) ∧
      s'.world = s.world) ∨
    (∃ s' k' u m, (ppTreeAvlBalanceInsertStep t.ptr).run s = some (.next u.ptr, s') ∧
      Holds (parentLayout _) s' k' u ∧ AvlBalanced u ∧ u.height = m + 1 ∧ AvlCtx m k' ∧ rootBalance u ≠ 0 ∧
      k'.length < k.length ∧ pairs (Ctx.plug k' u) = pairs (Ctx.plug k t) ∧ s'.world = s.world) := by
  have ht : t ≠ .nil := by rintro rfl; simp [AddrTree.height] at hn
  cases k with
  | nil =>
    refine .inl ⟨s, t, ?_, h, hbal, rfl, rfl⟩
    have hpar : (parent t.ptr).run s = some (NULL, s) := h.run_parent_ptr ht
    simp only [ppTreeAvlBalanceInsertStep, StateT.run_bind, hpar, Option.bind_eq_bind, Option.bind_some, if_true]
    rfl
  | cons f k =>
    obtain ⟨d, p, x, S⟩ := f
    obtain ⟨hx, hx₁, hx₂, hS, hk⟩ := avlCtx_cons.1 hk
    have hup : Holds (parentLayout _) s k (.nodeS d p t x S) := h.up
    rw [run_avlInsertStep h ht]
    rcases (show x.tag.toInt = sideSign d ∨ x.tag.toInt = -sideSign d ∨ x.tag.toInt = 0 by
      cases d <;> simp only [sideSign] at hx ⊢ <;> omega) with hx' | hx' | hx'
    · left
      obtain ⟨q, A, y, R, rfl⟩ := exists_nodeS ht d
      obtain ⟨hy, hy₁, hy₂, hA, hR⟩ := avlBalanced_nodeS.1 hbal
      rw [AddrTree.height_nodeS] at hn
      by_cases hy' : y.tag.toInt = -sideSign d
      · -- the inner subtree `R` has height `n`, the other two have height `n - 1`
        have hheights : R.height = n ∧ A.height + 1 = n ∧ S.height + 1 = n := by
          cases d <;> simp only [sideSign] at hx hx' hy hy' <;> omega
        obtain ⟨hRn, hAn, hSn⟩ := hheights
        have hRnil : R ≠ .nil := by rintro rfl; simp [AddrTree.height] at hRn; omega
        obtain ⟨r, B, z, D, rfl⟩ := exists_nodeS hRnil d
        obtain ⟨s', hrun, h', hw⟩ := run_avlInsertSide_rotate₂ hup (eq_sideBalance.2 hx')
          (eq_neg_sideBalance.2 hy')
        obtain ⟨m, rfl⟩ : ∃ m, n = m + 1 := ⟨n - 1, by omega⟩
        obtain ⟨hu, hheight⟩ := AvlBalanced.double (p := p) (q := q) (x := x) (y := y) hA hR hS
          (by omega) hRn (by omega)
        refine ⟨s', _, by rwa [AddrTree.ptr_nodeS], zip_plug.1 h', avlBalanced_plug.2 ⟨hu, ?_⟩,
          pairs_plug_congr ?_, hw⟩
        · rw [hheight]
          rwa [show max (m + 1) S.height + 1 = m + 2 by omega] at hk
        · cases d <;> simp [AddrTree.nodeS, Frame.plug]
      · -- the outer subtree `A` has height `n`, the other two have height `n - 1`
        have hyx : y.tag.toInt = sideSign d := by
          have hn0 : n ≠ 0 := by cases d <;> simp only [sideSign] at hx hx' <;> omega
          have hy0 := hroot.resolve_right hn0
          rw [rootBalance_nodeS, Ne, eq_zero_balance] at hy0
          cases d <;> simp only [sideSign] at hy' ⊢ <;> omega
        obtain ⟨s', hrun, h', hw⟩ := run_avlInsertSide_rotate hup (eq_sideBalance.2 hx')
          (mt eq_neg_sideBalance.1 hy')
        rw [eq_sideBalance.2 hyx, Int32.sub_self] at h'
        have hheights : A.height = n ∧ R.height + 1 = n ∧ S.height + 1 = n := by
          cases d <;> simp only [sideSign] at hx hx' hy hyx <;> omega
        obtain ⟨hAn, hRn, hSn⟩ := hheights
        refine ⟨s', _, by rwa [AddrTree.ptr_nodeS], zip_plug.1 h', avlBalanced_plug.2 ⟨?_, ?_⟩,
          pairs_plug_congr ?_, hw⟩
        · refine avlBalanced_nodeS.2 ⟨?_, by simp, by simp, hA, avlBalanced_nodeS.2 ⟨?_, by simp, by simp, hR, hS⟩⟩
          · rw [AddrTree.height_nodeS, show max R.height S.height + 1 = A.height by omega]
            simp
          · rw [show R.height = S.height by omega]
            simp
        · rw [AddrTree.height_nodeS, AddrTree.height_nodeS]
          rwa [show max A.height (max R.height S.height + 1) = max n S.height by omega]
        · cases d <;> simp [AddrTree.nodeS, Frame.plug]
    · left
      obtain ⟨s', hrun, h', hw⟩ := run_avlInsertSide_level hup (eq_neg_sideBalance.2 hx') t.ptr
      have hSn : S.height = n + 1 := by
        cases d <;> simp only [sideSign] at hx hx' <;> omega
      refine ⟨s', _, hrun, zip_plug.1 h', avlBalanced_plug.2 ⟨?_, ?_⟩, pairs_plug_congr ?_, hw⟩
      · refine avlBalanced_nodeS.2 ⟨?_, by simp, by simp, hbal, hS⟩
        rw [hSn, hn]
        simp
      · rw [AddrTree.height_nodeS]
        rwa [show max t.height S.height = max n S.height by omega]
      · cases d <;> simp [AddrTree.nodeS, Frame.plug]
    · right
      obtain ⟨s', hrun, h', hw⟩ := run_avlInsertSide_next hup ht (eq_zero_balance.2 hx')
      have hSn : S.height = n := by
        cases d <;> simp only [sideSign] at hx hx' <;> omega
      refine ⟨s', k, _, n + 1, by rwa [AddrTree.ptr_nodeS], h', ?_, ?_, ?_, ?_, by simp, pairs_plug_congr ?_, hw⟩
      · refine avlBalanced_nodeS.2 ⟨?_, ?_, ?_, hbal, hS⟩
        · rw [hSn, hn, Item.tag_withTag, toInt_sideBalance]
          cases d <;> simp only [sideSign] <;> omega
        · cases d <;> simp [sideSign]
        · cases d <;> simp [sideSign]
      · rw [AddrTree.height_nodeS]
        omega
      · rwa [show n + 1 = max n S.height + 1 by omega]
      · rw [rootBalance_nodeS]
        exact sideBalance_ne_zero d
      · cases d <;> simp [AddrTree.nodeS, Frame.plug]

/-- **The balancing of an insertion** restores the AVL property. -/
theorem run_ppTreeAvlBalanceInsert {fuel : ℕ} (h : Holds (parentLayout _) s k t) (hbal : AvlBalanced t)
    (hn : t.height = n + 1) (hk : AvlCtx n k) (hroot : rootBalance t ≠ 0 ∨ n = 0) (hfuel : k.length < fuel) :
    ∃ s' u, (ppTreeAvlBalanceInsert fuel t.ptr).run s = some ((), s') ∧
      Holds (parentLayout _) s' [] u ∧ AvlBalanced u ∧ pairs u = pairs (Ctx.plug k t) ∧ s'.world = s.world := by
  induction fuel generalizing s k t n with
  | zero => omega
  | succ fuel ih =>
    rcases avlInsert_step h hbal hn hk hroot with ⟨s', u, hrun, h', hu, hp, hw⟩ |
      ⟨s', k', u, m, hrun, h', hu, hm, hk', hroot', hlen, hp, hw⟩
    · exact ⟨s', u, loop_done hrun, h', hu, hp, hw⟩
    · obtain ⟨s'', u', hrun', h'', hu', hp', hw'⟩ := ih h' hu hm hk' (.inl hroot') (by omega)
      exact ⟨s'', u', (loop_next hrun).trans hrun', h'', hu', hp'.trans hp, hw'.trans hw⟩

/-- **Insertion.** -/
theorem run_pTreeAvlInsert {fuel : ℕ} {compare_func : PCompareDataFunc} {kd vd : Option (PDestroyFunc ω)}
    {key value mem : ppointer} (h : Holds (parentLayout _) s [] t) (ht : AvlBalanced t)
    (hd : AddrTree.Directed (fun p => compare_func key p.1) (pairs t)) (hfuel : t.size < fuel)
    (h0 : mem ≠ NULL) (hfree : s.get mem = none) :
    ∃ s' t' b, (pTreeAvlInsert fuel compare_func kd vd key value mem).run s = some (b, s') ∧
      Holds (parentLayout _) s' [] t' ∧ AvlBalanced t' ∧
      InsertEffect compare_func kd vd key value (pairs t) s.world (pairs t') s'.world b := by
  obtain ⟨p, hfind, hpar⟩ := run_findLink compare_func key h hfuel
  rcases hs : t.search (keyCmp compare_func key) [] with ⟨k, u⟩
  have hplug := plug_of_search hs
  rw [hs] at hfind hpar
  have ht' : AvlBalanced (Ctx.plug k u) := hplug.symm ▸ ht
  have hku : Holds (parentLayout _) s k u := Zip.refocus h (by simpa [Ctx.plug] using hplug)
  have hread := run_readLink hku
  cases u with
  | node a l x r =>
    have ha : a ≠ 0 := hku.ne_null (by simp)
    obtain ⟨s', hrun, h', hw⟩ := hku.run_replacePair kd vd key value
    have hbal : AvlBalanced (Ctx.plug k (.node a l (x.withPair (key, value)) r)) :=
      avlBalanced_plug_item (d := .left) ht' rfl
    refine ⟨s', _, false, ?_, zip_plug.1 h', hbal, hw ▸ insertEffect_replaced hs hd⟩
    simp [pTreeAvlInsert, hfind, hread, ha, hrun]
  | nil =>
    obtain ⟨s₁, hwrite, hnew, h₁, w₁⟩ := hku.run_graft (x := ⟨key, value, 0⟩) h0 hfree rfl
    have hlen : k.length < fuel := by
      have := Ctx.length_le k
      have := Ctx.size_plug k .nil
      rw [hplug] at this
      omega
    obtain ⟨s', t', hrun, h', hbal, hp, w'⟩ :=
      run_ppTreeAvlBalanceInsert h₁ (by simp [AvlBalanced]) rfl (avlBalanced_plug.1 ht').2 (.inr rfl) hlen
    have hread₁ := run_readLink h₁
    refine ⟨s', t', true, ?_, h', hbal, (w'.trans w₁) ▸ insertEffect_added hs hd hp rfl⟩
    rw [AddrTree.ptr_node] at hread₁ hrun
    rw [hpar rfl] at hfind
    have hnew' : (newNode mem ⟨NULL, NULL, key, value, ⟨Ctx.par k, 0⟩⟩).run
        (s.hookRoot (parentLayout _) k mem) = some ((), s₁) := hnew
    simp [pTreeAvlInsert, hfind, hread, hwrite, h0, hnew', hread₁, hrun]

end Plibsys
