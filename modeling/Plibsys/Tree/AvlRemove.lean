/-
  Removal from an AVL tree keeps the AVL property.

  The tree `T` at the focus is one lower than its place takes, or will be once the node to be
  removed, which is linked below it, is gone.  A round leaves `T` as it is and changes the
  place around it.
-/
import Plibsys.Tree.AvlInsert
import Plibsys.Tree.Frame

namespace Plibsys

open Looping Linked

variable {ω : Type} {s : Mem (ParentExt pint) ω} {k : AvlPlace} {t A B D S T : AvlNode} {d : Side} {n p q r : ℕ}
  {x y z : Item pint} {f : Frame (Item pint)}

theorem run_avlRemoveStep (h : Holds (parentLayout _) s (f :: k) t) (ht : t ≠ .nil) :
    (ppTreeAvlBalanceRemoveStep t.ptr).run s = (ppTreeAvlBalanceRemoveSide f.side t.ptr f.a).run s := by
  have hpar : (parent t.ptr).run s = some (f.a, s) := h.run_parent_ptr ht
  have h0 : f.a ≠ 0 := (h.hooked ht f rfl).1
  have hleft := h.run_left_par
  have hne := h.sib_ne ht
  cases hd : f.side <;> simp only [hd] at hleft
  · simp only [ppTreeAvlBalanceRemoveStep, StateT.run_bind, Option.bind_eq_bind, Option.bind_some, hpar, if_neg h0,
      hleft, if_true]
  · simp only [ppTreeAvlBalanceRemoveStep, StateT.run_bind, Option.bind_eq_bind, Option.bind_some, hpar, if_neg h0,
      hleft, if_neg hne]

/-! ## The cases of one round -/

/-- Case 1. -/
theorem run_avlRemoveSide_rotate₂
    (h : Holds (parentLayout _) s k (.nodeS d p T x (.nodeS d.other q A y (.nodeS d.other r B z D))))
    (hx : x.tag = -sideBalance d) (hy : y.tag = sideBalance d) (a : ℕ) :
    ∃ s', (ppTreeAvlBalanceRemoveSide d a p).run s = some (.next r, s') ∧
      Holds (parentLayout _) s' k
        (.nodeS d r (.nodeS d p T (x.withTag (restoredBalance z.tag d)) D) (z.withTag 0)
          (.nodeS d.other q A (y.withTag (restoredBalance z.tag d.other)) B)) ∧ s'.world = s.world := by
  have h' : Holds (parentLayout _) s k
      (.nodeS d.other p (.nodeS d.other q A y (.nodeS d.other r B z D)) x T) := by
    rw [AddrTree.nodeS_other]
    exact h
  obtain ⟨s', hrun, h'', hw⟩ := ppTreeAvlRotate2_spec h'
  rw [AddrTree.nodeS_other d r, AddrTree.nodeS_other d p, Side.other_other] at h''
  refine ⟨s', ?_, h'', hw⟩
  have hchild : (child d.other p).run s = _ := run_child_other h.getS
  have hytag := h.far.run_tagS
  have hpar : (parent p).run s' = some (r, s') := by
    have := h''.down.run_parent_ptr (AddrTree.nodeS_ne_nil _ _ _ _ _)
    rwa [AddrTree.ptr_nodeS] at this
  rw [AddrTree.ptr_nodeS] at hchild
  simp [ppTreeAvlBalanceRemoveSide, h.run_tagS, hx, hchild, hytag, hy, hrun, sideBalance_ne_zero, hpar]

/-- Case 2. -/
theorem run_avlRemoveSide_rotate (h : Holds (parentLayout _) s k (.nodeS d p T x (.nodeS d q B y D)))
    (hx : x.tag = -sideBalance d) (hy : y.tag ≠ sideBalance d) (a : ℕ) :
    ∃ s', (ppTreeAvlBalanceRemoveSide d a p).run s =
        some (if y.tag = 0 then .done () else .next q, s') ∧
      Holds (parentLayout _) s' k (.nodeS d q (.nodeS d p T (x.withTag (-(y.tag + sideBalance d))) B)
        (y.withTag (y.tag + sideBalance d)) D) ∧ s'.world = s.world := by
  obtain ⟨s', hrun, h', hw⟩ := ppTreeAvlRotate_spec h
  refine ⟨s', ?_, h', hw⟩
  have hchild : (child d.other p).run s = _ := run_child_other h.getS
  have hytag := h.far.run_tagS
  have hpar : (parent p).run s' = some (q, s') := by
    have := h'.down.run_parent_ptr (AddrTree.nodeS_ne_nil _ _ _ _ _)
    rwa [AddrTree.ptr_nodeS] at this
  rw [AddrTree.ptr_nodeS] at hchild
  by_cases hy0 : y.tag = 0
  · have hne := (sideBalance_ne_zero d).symm
    simp [ppTreeAvlBalanceRemoveSide, h.run_tagS, hx, hchild, hytag, hy0, hne, hrun]
  · simp [ppTreeAvlBalanceRemoveSide, h.run_tagS, hx, hchild, hytag, hy, hy0, hrun, hpar]

/-- Case 3. -/
theorem run_avlRemoveSide_done (h : Holds (parentLayout _) s k (.nodeS d p T x S)) (hx : x.tag = 0) (a : ℕ) :
    ∃ s', (ppTreeAvlBalanceRemoveSide d a p).run s = some (.done (), s') ∧
      Holds (parentLayout _) s' k (.nodeS d p T (x.withTag (-sideBalance d)) S) ∧ s'.world = s.world := by
  obtain ⟨s', hrun, h', hw⟩ := h.run_setTagS (-sideBalance d)
  refine ⟨s', ?_, h', hw⟩
  have hne : (0 : pint) ≠ -sideBalance d := by cases d <;> simp [sideBalance]
  simp [ppTreeAvlBalanceRemoveSide, h.run_tagS, hx, hne, hrun]

/-- Case 4. -/
theorem run_avlRemoveSide_next (h : Holds (parentLayout _) s k (.nodeS d p T x S)) (hT : T ≠ .nil)
    (hx : x.tag = sideBalance d) :
    ∃ s', (ppTreeAvlBalanceRemoveSide d T.ptr p).run s = some (.next p, s') ∧
      Holds (parentLayout _) s' k (.nodeS d p T (x.withTag 0) S) ∧ s'.world = s.world := by
  obtain ⟨s', hrun, h', hw⟩ := h.run_setTagS 0
  refine ⟨s', ?_, h', hw⟩
  have hpar := h'.down.run_parent_ptr hT
  simp [ppTreeAvlBalanceRemoveSide, h.run_tagS, hx, sideBalance_ne, sideBalance_ne_zero, hrun, hpar, Ctx.par]

/-! ## One round -/

/-- The rotation of Case 2 keeps the bindings around the lower tree, whatever the balance factors. -/
theorem sameAround_rotate (v w : pint) : SameAround (⟨d, p, x, .nodeS d q B y D⟩ :: k)
    (⟨d, p, x.withTag v, B⟩ :: ⟨d, q, y.withTag w, D⟩ :: k) := by
  cases d <;> exact ⟨by simp [Ctx.before, AddrTree.nodeS, AddrTree.toList],
    by simp [Ctx.after, AddrTree.nodeS, AddrTree.toList]⟩

/-- The place takes a tree that is one lower, or the same holds one or two nodes further up. -/
theorem avlRemove_step (h : Holds (parentLayout _) s k T) (hT : T ≠ .nil) (hk : AvlCtx (n + 1) k) :
    (∃ s' k', (ppTreeAvlBalanceRemoveStep T.ptr).run s = some (.done (), s') ∧
      Holds (parentLayout _) s' k' T ∧ AvlCtx n k' ∧ SameAround k k' ∧ s'.world = s.world) ∨
    (∃ s' kf k' m, (ppTreeAvlBalanceRemoveStep T.ptr).run s = some (.next (Ctx.plug kf T).ptr, s') ∧
      Holds (parentLayout _) s' (kf ++ k') T ∧
      (∀ t, AvlBalanced t → t.height = n → AvlBalanced (Ctx.plug kf t) ∧ (Ctx.plug kf t).height = m) ∧
      AvlCtx (m + 1) k' ∧ k'.length < k.length ∧ SameAround k (kf ++ k') ∧ s'.world = s.world) := by
  cases k with
  | nil =>
    refine .inl ⟨s, [], ?_, h, trivial, .refl _, rfl⟩
    have hpar : (parent T.ptr).run s = some (NULL, s) := h.run_parent_ptr hT
    simp only [ppTreeAvlBalanceRemoveStep, StateT.run_bind, hpar, Option.bind_eq_bind, Option.bind_some, if_true]
    rfl
  | cons f k =>
    obtain ⟨d, p, x, S⟩ := f
    obtain ⟨hx, hx₁, hx₂, hS, hk'⟩ := avlCtx_cons.1 hk
    have hup : Holds (parentLayout _) s k (.nodeS d p T x S) := h.up
    rw [run_avlRemoveStep h hT]
    rcases (show x.tag.toInt = -sideSign d ∨ x.tag.toInt = 0 ∨ x.tag.toInt = sideSign d by
      cases d <;> simp only [sideSign] at hx ⊢ <;> omega) with hx' | hx' | hx'
    · have hSn : S.height = n + 2 := by cases d <;> simp only [sideSign] at hx hx' <;> omega
      rw [hSn, show max (n + 1) (n + 2) + 1 = n + 3 by omega] at hk'
      have hSnil : S ≠ .nil := by rintro rfl; simp [AddrTree.height] at hSn
      obtain ⟨q, B, y, D, rfl⟩ := exists_nodeS hSnil d
      obtain ⟨hy, hy₁, hy₂, hB, hD⟩ := avlBalanced_nodeS.1 hS
      rw [AddrTree.height_nodeS] at hSn
      by_cases hy' : y.tag.toInt = sideSign d
      · right
        have hheights : B.height = n + 1 ∧ D.height = n := by
          cases d <;> simp only [sideSign] at hy hy' <;> omega
        have hBnil : B ≠ .nil := by rintro rfl; simp [AddrTree.height] at hheights
        obtain ⟨r, B₁, z, B₂, rfl⟩ := exists_nodeS hBnil d.other
        rw [← AddrTree.nodeS_other d q] at hup
        obtain ⟨s', hrun, h', hw⟩ := run_avlRemoveSide_rotate₂ hup (eq_neg_sideBalance.2 hx')
          (eq_sideBalance.2 hy') T.ptr
        refine ⟨s', [⟨d, p, x.withTag (restoredBalance z.tag d), B₂⟩, ⟨d, r, z.withTag 0, _⟩], k, n + 2, ?_,
          h'.down.down, ?_, hk', by simp, ?_, hw⟩
        · rw [hrun]
          simp [Ctx.plug, Frame.plug]
        · intro t ht htn
          have := AvlBalanced.double (d := d.other) (p := p) (q := q) (x := x) (y := y) hD hB ht hheights.2
            hheights.1 htn
          rwa [AddrTree.nodeS_other d r, AddrTree.nodeS_other d p, Side.other_other] at this
        · cases d <;> exact ⟨by simp [Ctx.before, AddrTree.nodeS, AddrTree.toList, Side.other],
            by simp [Ctx.after, AddrTree.nodeS, AddrTree.toList, Side.other]⟩
      · obtain ⟨s', hrun, h', hw⟩ := run_avlRemoveSide_rotate hup (eq_neg_sideBalance.2 hx')
          (mt eq_sideBalance.1 hy') T.ptr
        have hsame : SameAround (⟨d, p, x, .nodeS d q B y D⟩ :: k)
            (⟨d, p, x.withTag (-(y.tag + sideBalance d)), B⟩ ::
              ⟨d, q, y.withTag (y.tag + sideBalance d), D⟩ :: k) := sameAround_rotate _ _
        by_cases hy0 : y.tag = 0
        · left
          rw [eq_zero_balance.1 hy0] at hy
          have hheights : B.height = n + 1 ∧ D.height = n + 1 := by
            cases d <;> simp only [sideSign] at hy <;> omega
          rw [if_pos hy0] at hrun
          refine ⟨s', _, hrun, h'.down.down, avlCtx_cons.2 ⟨?_, ?_, ?_, hB, avlCtx_cons.2 ⟨?_, ?_, ?_, hD, ?_⟩⟩,
            hsame, hw⟩
          · rw [hheights.1, hy0, Item.tag_withTag, Int32.zero_add, toInt_neg_sideBalance]
            cases d <;> simp only [sideSign] <;> omega
          · rw [hy0, Item.tag_withTag, Int32.zero_add, toInt_neg_sideBalance]; cases d <;> simp [sideSign]
          · rw [hy0, Item.tag_withTag, Int32.zero_add, toInt_neg_sideBalance]; cases d <;> simp [sideSign]
          · rw [hheights.1, hheights.2, hy0, Item.tag_withTag, Int32.zero_add, toInt_sideBalance]
            cases d <;> simp only [sideSign] <;> omega
          · rw [hy0, Item.tag_withTag, Int32.zero_add, toInt_sideBalance]; cases d <;> simp [sideSign]
          · rw [hy0, Item.tag_withTag, Int32.zero_add, toInt_sideBalance]; cases d <;> simp [sideSign]
          · rwa [show max (max n B.height + 1) D.height + 1 = n + 3 by omega]
        · right
          rw [eq_zero_balance] at hy0
          have hyx : y.tag.toInt = -sideSign d := by
            cases d <;> simp only [sideSign] at hy' ⊢ <;> omega
          have hheights : B.height = n ∧ D.height = n + 1 := by
            cases d <;> simp only [sideSign] at hy hyx <;> omega
          rw [eq_neg_sideBalance.2 hyx, Int32.add_left_neg, Int32.neg_zero] at h' hsame
          rw [if_neg (mt eq_zero_balance.1 hy0)] at hrun
          refine ⟨s', [_, _], k, n + 2, ?_, h'.down.down, ?_, hk', by simp, hsame, hw⟩
          · rw [hrun]
            simp [Ctx.plug, Frame.plug]
          · intro t ht htn
            constructor
            · refine avlBalanced_nodeS.2
                ⟨?_, by simp, by simp, avlBalanced_nodeS.2 ⟨?_, by simp, by simp, ht, hB⟩, hD⟩
              · rw [Frame.plug, AddrTree.height_nodeS, hheights.1, hheights.2, htn]
                simp
              · rw [hheights.1, htn]
                simp
            · simp only [Ctx.plug, Frame.plug, AddrTree.height_nodeS]
              omega
    · left
      have hSn : S.height = n + 1 := by cases d <;> simp only [sideSign] at hx hx' <;> omega
      obtain ⟨s', hrun, h', hw⟩ := run_avlRemoveSide_done hup (eq_zero_balance.2 hx') T.ptr
      refine ⟨s', _, hrun, h'.down, avlCtx_cons.2 ⟨?_, ?_, ?_, hS, ?_⟩, ?_, hw⟩
      · rw [hSn, Item.tag_withTag, toInt_neg_sideBalance]
        cases d <;> simp only [sideSign] <;> omega
      · rw [Item.tag_withTag, toInt_neg_sideBalance]; cases d <;> simp [sideSign]
      · rw [Item.tag_withTag, toInt_neg_sideBalance]; cases d <;> simp [sideSign]
      · rwa [show max n S.height = max (n + 1) S.height by omega]
      · cases d <;> exact ⟨by simp [Ctx.before], by simp [Ctx.after]⟩
    · right
      have hSn : S.height = n := by cases d <;> simp only [sideSign] at hx hx' <;> omega
      obtain ⟨s', hrun, h', hw⟩ := run_avlRemoveSide_next hup hT (eq_sideBalance.2 hx')
      refine ⟨s', [_], k, n + 1, ?_, h'.down, ?_, ?_, by simp, ?_, hw⟩
      · rw [hrun]
        simp [Ctx.plug, Frame.plug]
      · intro t ht htn
        constructor
        · refine avlBalanced_nodeS.2 ⟨?_, by simp, by simp, ht, hS⟩
          rw [hSn, htn]
          simp
        · simp only [Ctx.plug, Frame.plug, AddrTree.height_nodeS]
          omega
      · rwa [show n + 1 + 1 = max (n + 1) S.height + 1 by omega]
      · cases d <;> exact ⟨by simp [Ctx.before], by simp [Ctx.after]⟩

/-- **The balancing of a removal** lets the tree do with a lower tree in the place of `D`. -/
theorem run_ppTreeAvlBalanceRemove {fuel : ℕ} (kin : AvlPlace) (D V : AvlNode)
    (h : Holds (parentLayout _) s k (Ctx.plug kin D)) (hD : D ≠ .nil) (hbal : AvlBalanced (Ctx.plug kin V))
    (hn : (Ctx.plug kin V).height = n) (hk : AvlCtx (n + 1) k) (hfuel : k.length < fuel) :
    ∃ s' k', (ppTreeAvlBalanceRemove fuel (Ctx.plug kin D).ptr).run s = some ((), s') ∧
      Holds (parentLayout _) s' k' D ∧ AvlBalanced (Ctx.plug k' V) ∧ SameAround (kin ++ k) k' ∧
      s'.world = s.world := by
  induction fuel generalizing s k n kin with
  | zero => omega
  | succ fuel ih =>
    have hT : Ctx.plug kin D ≠ .nil := Ctx.plug_ne_nil hD
    rcases avlRemove_step h hT hk with ⟨s', k', hrun, h', hk', hsame, hw⟩ |
      ⟨s', kf, k', m, hrun, h', hkf, hk', hlen, hsame, hw⟩
    · refine ⟨s', kin ++ k', loop_done hrun, zip_append.2 h', ?_, hsame.append kin, hw⟩
      rw [Ctx.plug_append]
      exact avlBalanced_plug.2 ⟨hbal, hn ▸ hk'⟩
    · have hup : Holds (parentLayout _) s' k' (Ctx.plug (kin ++ kf) D) := by
        rw [Ctx.plug_append]
        exact zip_append.1 h'
      obtain ⟨hbal', hm⟩ := hkf _ hbal hn
      rw [← Ctx.plug_append] at hbal' hm
      obtain ⟨s'', k'', hrun', h'', hb, hsame', hw'⟩ := ih (kin ++ kf) hup hbal' hm hk' (by omega)
      rw [Ctx.plug_append] at hrun'
      refine ⟨s'', k'', (loop_next hrun).trans hrun', h'', hb, .trans (hsame.append kin) ?_, hw'.trans hw⟩
      rwa [← List.append_assoc]

/-! ## The removal -/

section
variable {u : AvlNode} (kd vd : Option (PDestroyFunc ω)) {fuel : ℕ}

/-- The node has a child, at which the balancing starts. -/
theorem run_avlUnlink_child (h : Holds (parentLayout _) s k (.nodeS d p .nil y u)) (hu : u ≠ .nil)
    (hbal : AvlBalanced (Ctx.plug k (.nodeS d p .nil y u))) (hfuel : k.length < fuel) :
    ∃ s₁ s₂ s₃ s' v, (replaceNode p u.ptr).run s = some (Ctx.par k, s₁) ∧
      (setParent u.ptr (Ctx.par k)).run s₁ = some ((), s₂) ∧
      (ppTreeAvlBalanceRemove fuel u.ptr).run s₂ = some ((), s₃) ∧ (freeNode kd vd p).run s₃ = some ((), s') ∧
      Holds (parentLayout _) s' [] v ∧ AvlBalanced v ∧ pairs v = pairs (Ctx.plug k u) ∧
      s'.world = notifiedPair kd vd y.pair s.world := by
  obtain ⟨hnode, hk⟩ := avlBalanced_plug.1 hbal
  obtain ⟨-, -, -, -, hubal⟩ := avlBalanced_nodeS.1 hnode
  rw [AddrTree.height_nodeS, AddrTree.height, Nat.zero_max] at hk
  obtain ⟨s₁, s₂, hrep, hpar, -, h₂, hg₂, w₂⟩ := h.run_unlink
  obtain ⟨-, hpu, hpk⟩ := h.nodup_node
  obtain ⟨_, s₃, k₃, t₃, hrun₃, h₃, ⟨rfl, hbal₃, hsame₃, w₃⟩, hg₃, hp₃⟩ :=
    Holds.frame (ppTreeAvlBalanceRemove fuel u.ptr) h₂ hg₂ ⟨hpu, hpk⟩
      (fun _ k' t' w => t' = u ∧ AvlBalanced (Ctx.plug k' u) ∧ SameAround k k' ∧ w = s₂.world) (fun s₀ h₀ w₀ => by
        obtain ⟨s', k', hrun, h', hb, hsame, hw⟩ := run_ppTreeAvlBalanceRemove [] u u h₀ hu hubal rfl hk hfuel
        exact ⟨(), s', k', u, hrun, h', rfl, hb, hsame, hw.trans w₀⟩)
  obtain ⟨s', hfree, h', w'⟩ := h₃.run_freeNode kd vd hg₃ hp₃.1 hp₃.2
  refine ⟨s₁, s₂, s₃, s', _, hrep, hpar hu, hrun₃, hfree, zip_plug.1 h', hbal₃, (hsame₃.pairs_plug _).symm, ?_⟩
  rw [w', w₃, w₂, (parentLayout pint).cellS_key, (parentLayout pint).cellS_value]
  rfl

end

/-- **Removal.** -/
theorem run_pTreeAvlRemove {fuel : ℕ} {compare_func : PCompareDataFunc}
    {kd vd : Option (PDestroyFunc ω)} {key : ppointer} (h : Holds (parentLayout _) s [] t) (ht : AvlBalanced t)
    (hd : AddrTree.Directed (fun p => compare_func key p.1) (pairs t)) (hfuel : t.size < fuel) :
    ∃ s' t' b, (pTreeAvlRemove fuel compare_func kd vd key).run s = some (b, s') ∧
      Holds (parentLayout _) s' [] t' ∧ AvlBalanced t' ∧
      RemoveEffect compare_func kd vd key t s.world (pairs t') s'.world b := by
  have hroot : s.root = t.ptr := h.root_eq
  have hfind := run_findNode compare_func key h hfuel
  rcases hs : t.search (keyCmp compare_func key) [] with ⟨k, u⟩
  rw [hs, ← hroot] at hfind
  cases u with
  | nil =>
    refine ⟨s, t, false, ?_, h, ht, removeEffect_absent hs hd⟩
    simp [pTreeAvlRemove, hfind]
  | node a l x r =>
    have hk : Holds (parentLayout _) s k (.node a l x r) :=
      Zip.refocus h (by simpa [Ctx.plug] using plug_of_search hs)
    have ha : a ≠ 0 := hk.ne_null (by simp)
    obtain ⟨s₁, k', d, b, u, y, x', hmark, h₁, hplug, hx', heff, hlen⟩ :=
      h.run_markNode kd vd hs hd (Nat.le_of_lt hfuel)
    have hbal : AvlBalanced (Ctx.plug k' (.nodeS d b .nil y u)) := by
      rw [hplug]
      exact avlBalanced_plug_item (d := .left) ((plug_of_search hs).symm ▸ ht) hx'
    have hchild := h₁.run_onlyChild
    by_cases hu : u = .nil
    · subst hu
      obtain ⟨-, hk'⟩ := avlBalanced_plug.1 hbal
      rw [AddrTree.height_nodeS] at hk'
      obtain ⟨s₂, k₂, hrun₂, h₂, hbal₂, hsame, w₂⟩ :=
        run_ppTreeAvlBalanceRemove [] (.nodeS d b .nil y .nil) .nil h₁
        (AddrTree.nodeS_ne_nil _ _ _ _ _) trivial rfl hk' (Nat.lt_trans hlen hfuel)
      simp only [Ctx.plug, AddrTree.ptr_nodeS, List.nil_append] at hrun₂ hsame
      obtain ⟨s₃, s', hrep, hfree, h', hw⟩ := h₂.run_unlinkLeaf kd vd
      refine ⟨s', _, true, ?_, h', hbal₂, ?_⟩
      · simp [pTreeAvlRemove, hfind, ha, hmark, hchild, hrun₂, hrep, hfree]
      · rw [hw, w₂, ← hsame.pairs_plug]
        exact heff
    · obtain ⟨s₂, s₃, s₄, s', v, hrep, hpar, hrun, hfree, h', hv, hpv, hw⟩ :=
        run_avlUnlink_child kd vd h₁ hu hbal (Nat.lt_trans hlen hfuel)
      have hu0 : u.ptr ≠ 0 := h₁.far.ne_null hu
      refine ⟨s', v, true, ?_, h', hv, ?_⟩
      · simp [pTreeAvlRemove, hfind, ha, hmark, hchild, hu0, hrep, hpar, hrun, hfree]
      · rw [hpv, hw]
        exact heff

end Plibsys
