/-
  Removal from a red-black tree keeps the red-black property.

  While the tree is balanced, the node to be removed is still linked below the focus `T`.
  A round therefore leaves `T` as it is and changes the place around it, so that in the end
  the place takes a tree with one black node less than before.
-/
import Plibsys.Tree.RbInsert

namespace Plibsys

open Looping Linked PTreeRBColor

variable {ω : Type} {s : Mem (ParentExt PTreeRBColor) ω} {k : RbPlace} {d : Side} {p q r : ℕ}
  {T B D D₁ D₂ B₁ B₂ : RbNode} {x y z : Item PTreeRBColor}

/-! ## The cases of one round -/

/-- Case 2: the sibling is red. -/
theorem run_balanceRemoveCase2 (h : Holds (parentLayout _) s k (.nodeS d p T x (.nodeS d q B y D)))
    (hT : T ≠ .nil) :
    ∃ s', (ppTreeRbBalanceRemoveCase2 T.ptr q).run s = some (B.ptr, s') ∧
      Holds (parentLayout _) s' k (.nodeS d q (.nodeS d p T (x.withTag red) B) (y.withTag black) D) ∧
      s'.world = s.world := by
  have hpar : (parent T.ptr).run s = some (p, s) := h.down.run_parent_ptr hT
  obtain ⟨s₁, e₁, h₁, w₁⟩ := h.run_setTagS red
  obtain ⟨s₂, e₂, h₂, w₂⟩ := h₁.far.run_setTagS black
  have h₂ := Holds.unfar h₂
  have hpar₂ : (parent T.ptr).run s₂ = some (p, s₂) := h₂.down.run_parent_ptr hT
  have hleft : (left p).run s₂ = _ := h₂.down.run_left_par
  have hne : q ≠ T.ptr := by simpa using h₂.down.sib_ne hT
  obtain ⟨s₃, e₃, h₃, w₃⟩ := ppTreeRbRotate_spec h₂
  have hsib := run_ppTreeRbGetSibling h₃.down.down hT
  refine ⟨s₃, ?_, h₃, w₃.trans (w₂.trans w₁)⟩
  cases d <;> simp only [AddrTree.ptr_nodeS] at hleft
  · simp only [ppTreeRbBalanceRemoveCase2, StateT.run_bind, Option.bind_eq_bind, Option.bind_some, hpar, e₁, e₂,
      hpar₂, hleft, if_true, ppTreeRbRotateLeft, e₃, hsib]
  · simp only [ppTreeRbBalanceRemoveCase2, StateT.run_bind, Option.bind_eq_bind, Option.bind_some, hpar, e₁, e₂,
      hpar₂, hleft, if_neg hne.symm, ppTreeRbRotateRight, e₃, hsib]

/-- Case 4 does nothing if the far child of the sibling is red. -/
theorem run_balanceRemoveCase4_far (h : Holds (parentLayout _) s k (.nodeS d p T x (.nodeS d q B y D)))
    (hT : T ≠ .nil) (hD : color D = red) :
    (ppTreeRbBalanceRemoveCase4 T.ptr q).run s = some (q, s) := by
  have hpar : (parent T.ptr).run s = some (p, s) := h.down.run_parent_ptr hT
  have hleft : (left p).run s = _ := h.down.run_left_par
  have hright : (right p).run s = _ := h.down.run_right_par
  have hne : q ≠ T.ptr := by simpa using h.down.sib_ne hT
  have hql : (left q).run s = _ := h.far.down.run_left_par
  have hqr : (right q).run s = _ := h.far.down.run_right_par
  have hBb := run_ppTreeRbIsBlack h.far.down
  have hDb := run_ppTreeRbIsBlack h.far.far
  rw [hD, decide_eq_false (by simp)] at hDb
  cases d <;> simp only [AddrTree.ptr_nodeS] at hleft hright hql hqr
  · simp only [ppTreeRbBalanceRemoveCase4, StateT.run_bind, Option.bind_eq_bind, Option.bind_some, hpar, hleft,
      hqr, hDb, Bool.false_eq_true, and_false, if_false, hright, hql, hBb, hne.symm, false_and]
    rfl
  · simp only [ppTreeRbBalanceRemoveCase4, StateT.run_bind, Option.bind_eq_bind, Option.bind_some, hpar, hleft,
      hqr, hDb, Bool.false_eq_true, and_false, if_false, hright, hql, hBb, hne.symm, false_and]
    rfl

/-- Case 4: only the near child of the sibling is red. -/
theorem run_balanceRemoveCase4_near
    (h : Holds (parentLayout _) s k (.nodeS d p T x (.nodeS d q (.nodeS d r B₁ z B₂) y D)))
    (hT : T ≠ .nil) (hD : color D = black) :
    ∃ s', (ppTreeRbBalanceRemoveCase4 T.ptr q).run s = some (r, s') ∧
      Holds (parentLayout _) s' k (.nodeS d p T x
        (.nodeS d r B₁ (z.withTag black) (.nodeS d q B₂ (y.withTag red) D))) ∧ s'.world = s.world := by
  have hpar : (parent T.ptr).run s = some (p, s) := h.down.run_parent_ptr hT
  have hleft : (left p).run s = _ := h.down.run_left_par
  have hright : (right p).run s = _ := h.down.run_right_par
  have hne : q ≠ T.ptr := by simpa using h.down.sib_ne hT
  have hql : (left q).run s = _ := h.far.down.run_left_par
  have hqr : (right q).run s = _ := h.far.down.run_right_par
  have hBb := run_ppTreeRbIsBlack h.far.down
  have hDb := run_ppTreeRbIsBlack h.far.far
  rw [hD, decide_eq_true rfl] at hDb
  rw [AddrTree.ptr_nodeS] at hBb
  obtain ⟨s₁, e₁, h₁, w₁⟩ := h.far.run_setTagS red
  have hnear : (child d q).run s₁ = _ := run_child h₁.getS
  obtain ⟨s₂, e₂, h₂, w₂⟩ := h₁.down.run_setTagS black
  have h₂ := h₂.up
  have h₂' : Holds (parentLayout _) s₂ (⟨d.other, p, x, T⟩ :: k)
      (.nodeS d.other q D (y.withTag red) (.nodeS d.other r B₂ (z.withTag black) B₁)) := by
    rw [AddrTree.nodeS_other, AddrTree.nodeS_other]
    exact h₂
  obtain ⟨s₃, e₃, h₃, w₃⟩ := ppTreeRbRotate_spec h₂'
  rw [AddrTree.nodeS_other, AddrTree.nodeS_other] at h₃
  have h₃ := Holds.unfar h₃
  have hsib := run_ppTreeRbGetSibling h₃.down hT
  refine ⟨s₃, ?_, h₃, w₃.trans (w₂.trans w₁)⟩
  cases d <;> simp only [AddrTree.ptr_nodeS, child, Side.other] at hleft hright hql hqr hnear hsib e₃
  · simp only [ppTreeRbBalanceRemoveCase4, StateT.run_bind, Option.bind_eq_bind, Option.bind_some, hpar, hleft,
      hqr, hDb, and_self, if_true, e₁, hnear, e₂, ppTreeRbRotateRight, e₃, hsib]
  · simp only [ppTreeRbBalanceRemoveCase4, StateT.run_bind, Option.bind_eq_bind, Option.bind_some, hpar, hleft,
      hqr, hBb, hne.symm, false_and, if_false, hright, hql, hDb, and_self, if_true, e₁, hnear, e₂,
      ppTreeRbRotateLeft, e₃, hsib]

/-- Case 5: the far child of the sibling is red. -/
theorem run_balanceRemoveCase5
    (h : Holds (parentLayout _) s k (.nodeS d p T x (.nodeS d q B y (.nodeS d r D₁ z D₂))))
    (hT : T ≠ .nil) :
    ∃ s', (ppTreeRbBalanceRemoveCase5 T.ptr q).run s = some ((), s') ∧
      Holds (parentLayout _) s' k (.nodeS d q (.nodeS d p T (x.withTag black) B) (y.withTag x.tag)
        (.nodeS d r D₁ (z.withTag black) D₂)) ∧ s'.world = s.world := by
  have hpar : (parent T.ptr).run s = some (p, s) := h.down.run_parent_ptr hT
  have htag := h.run_tagS
  obtain ⟨s₁, e₁, h₁, w₁⟩ := h.far.run_setTagS x.tag
  have h₁ := Holds.unfar h₁
  have hpar₁ : (parent T.ptr).run s₁ = some (p, s₁) := h₁.down.run_parent_ptr hT
  obtain ⟨s₂, e₂, h₂, w₂⟩ := h₁.run_setTagS black
  have hpar₂ : (parent T.ptr).run s₂ = some (p, s₂) := h₂.down.run_parent_ptr hT
  have hleft : (left p).run s₂ = _ := h₂.down.run_left_par
  have hne : q ≠ T.ptr := by simpa using h₂.down.sib_ne hT
  have hfar := run_child_other h₂.far.getS
  obtain ⟨s₃, e₃, h₃, w₃⟩ := h₂.far.far.run_setTagS black
  have h₃ := Holds.unfar (Holds.unfar h₃)
  have hpar₃ : (parent T.ptr).run s₃ = some (p, s₃) := h₃.down.run_parent_ptr hT
  obtain ⟨s₄, e₄, h₄, w₄⟩ := ppTreeRbRotate_spec h₃
  refine ⟨s₄, ?_, h₄, w₄.trans (w₃.trans (w₂.trans w₁))⟩
  cases d <;> simp only [AddrTree.ptr_nodeS, Side.other, child] at hleft hfar
  · simp only [ppTreeRbBalanceRemoveCase5, StateT.run_bind, Option.bind_eq_bind, Option.bind_some, hpar, htag, e₁,
      hpar₁, e₂, hpar₂, hleft, if_true, hfar, e₃, hpar₃, ppTreeRbRotateLeft, e₄]
  · simp only [ppTreeRbBalanceRemoveCase5, StateT.run_bind, Option.bind_eq_bind, Option.bind_some, hpar, htag, e₁,
      hpar₁, e₂, hpar₂, hleft, if_neg hne.symm, hfar, e₃, hpar₃, ppTreeRbRotateRight, e₄]

/-- Case 3 at a black parent: the parent is to be balanced next. -/
theorem run_balanceRemoveCase3_next (h : Holds (parentLayout _) s k (.nodeS d p T x (.nodeS d q B y D)))
    (hT : T ≠ .nil) (hx : x.tag = black) :
    ∃ s', (ppTreeRbBalanceRemoveCase3 T.ptr q).run s = some (.next p, s') ∧
      Holds (parentLayout _) s' k (.nodeS d p T x (.nodeS d q B (y.withTag red) D)) ∧
      s'.world = s.world := by
  obtain ⟨s₁, e₁, h₁, w₁⟩ := h.far.run_setTagS red
  have h₁ := Holds.unfar h₁
  have hpar : (parent T.ptr).run s₁ = some (p, s₁) := h₁.down.run_parent_ptr hT
  have hblack := run_ppTreeRbIsBlack h₁
  rw [AddrTree.ptr_nodeS, color_nodeS, decide_eq_true hx] at hblack
  refine ⟨s₁, ?_, h₁, w₁⟩
  simp only [ppTreeRbBalanceRemoveCase3, StateT.run_bind, Option.bind_eq_bind, Option.bind_some, e₁, hpar, hblack,
    if_true]
  rfl

/-- Case 3 at a red parent. -/
theorem run_balanceRemoveCase3_done (h : Holds (parentLayout _) s k (.nodeS d p T x (.nodeS d q B y D)))
    (hT : T ≠ .nil) (hx : x.tag = red) :
    ∃ s', (ppTreeRbBalanceRemoveCase3 T.ptr q).run s = some (.done (), s') ∧
      Holds (parentLayout _) s' k (.nodeS d p T (x.withTag black) (.nodeS d q B (y.withTag red) D)) ∧
      s'.world = s.world := by
  obtain ⟨s₁, e₁, h₁, w₁⟩ := h.far.run_setTagS red
  have h₁ := Holds.unfar h₁
  have hpar : (parent T.ptr).run s₁ = some (p, s₁) := h₁.down.run_parent_ptr hT
  have hblack := run_ppTreeRbIsBlack h₁
  rw [AddrTree.ptr_nodeS, color_nodeS, hx, decide_eq_false (by simp)] at hblack
  obtain ⟨s₂, e₂, h₂, w₂⟩ := h₁.run_setTagS black
  refine ⟨s₂, ?_, h₂, w₂.trans w₁⟩
  simp only [ppTreeRbBalanceRemoveCase3, StateT.run_bind, Option.bind_eq_bind, Option.bind_some, e₁, hpar, hblack,
    Bool.false_eq_true, if_false, e₂]
  rfl

/-- The choice between case 3 and cases 4 and 5. -/
theorem run_balanceRemoveBlack (h : Holds (parentLayout _) s k (.nodeS d p T x (.nodeS d q B y D))) :
    (ppTreeRbBalanceRemoveBlack T.ptr q).run s =
      if color B = black ∧ color D = black then (ppTreeRbBalanceRemoveCase3 T.ptr q).run s
      else ((ppTreeRbBalanceRemoveCase4 T.ptr q).run s).bind fun e =>
        ((ppTreeRbBalanceRemoveCase5 T.ptr e.1).run e.2).map fun e => (.done (), e.2) := by
  have hql : (left q).run s = _ := h.far.down.run_left_par
  have hqr : (right q).run s = _ := h.far.down.run_right_par
  have hBb := run_ppTreeRbIsBlack h.far.down
  have hDb := run_ppTreeRbIsBlack h.far.far
  cases d <;> simp only at hql hqr
  · simp only [ppTreeRbBalanceRemoveBlack, StateT.run_bind, Option.bind_eq_bind, Option.bind_some, hql, hqr, hBb,
      hDb, decide_eq_true_eq]
    split <;> simp
  · simp only [ppTreeRbBalanceRemoveBlack, StateT.run_bind, Option.bind_eq_bind, Option.bind_some, hql, hqr, hBb,
      hDb, decide_eq_true_eq, and_comm]
    split <;> simp

/-! ## One round -/

/-- Case 5 leaves a place that takes a tree with one black node less. -/
theorem balanceRemoveCase5_step {c cB : PTreeRBColor} {n : ℕ} {S : RbNode}
    (h : Holds (parentLayout _) s k (.nodeS d p T x (.nodeS d q B y (.nodeS d r D₁ z D₂)))) (hT : T ≠ .nil)
    (hB : RbTree cB n B) (hD₁ : RbTree black n D₁) (hD₂ : RbTree black n D₂)
    (hk : RbCtx c (n + 1) (⟨d, p, x, S⟩ :: k)) :
    ∃ s' k' c', (ppTreeRbBalanceRemoveCase5 T.ptr q).run s = some ((), s') ∧
      Holds (parentLayout _) s' k' T ∧ RbCtx c' n k' ∧
      SameAround (⟨d, p, x, .nodeS d q B y (.nodeS d r D₁ z D₂)⟩ :: k) k' ∧ s'.world = s.world := by
  obtain ⟨s', hrun, h', hw⟩ := run_balanceRemoveCase5 h hT
  have hD : RbTree black (n + 1) (.nodeS d r D₁ (z.withTag black) D₂) :=
    RbTree.blackS (z.tag_withTag black) hD₁ hD₂
  have hq : RbCtx c (n + 1) (⟨d, q, y.withTag x.tag, .nodeS d r D₁ (z.withTag black) D₂⟩ :: k) :=
    hk.exchange rfl hD
  refine ⟨s', _, red, hrun, h'.down.down, .black (x.tag_withTag black) hB hq, ?_, hw⟩
  cases d <;> exact ⟨by simp [Ctx.before, AddrTree.nodeS, AddrTree.toList],
    by simp [Ctx.after, AddrTree.nodeS, AddrTree.toList]⟩

theorem RbTree.ne_nil {c : PTreeRBColor} {n : ℕ} {t : RbNode} (h : RbTree c n t)
    (hn : c = PTreeRBColor.red ∨ n ≠ 0) :
    t ≠ .nil := by
  rintro rfl
  cases h
  simp at hn

/-- Cases 3 to 5: the place takes a tree with one black node less, or the parent is to be
    balanced next. -/
theorem balanceRemoveBlack_step {c cB cD : PTreeRBColor} {n : ℕ}
    (h : Holds (parentLayout _) s k (.nodeS d p T x (.nodeS d q B y D))) (hT : T ≠ .nil)
    (hB : RbTree cB n B) (hD : RbTree cD n D)
    (hk : RbCtx c (n + 1) (⟨d, p, x, .nodeS d q B y D⟩ :: k)) :
    (∃ s' k' c', (ppTreeRbBalanceRemoveBlack T.ptr q).run s = some (.done (), s') ∧
      Holds (parentLayout _) s' k' T ∧ RbCtx c' n k' ∧
      SameAround (⟨d, p, x, .nodeS d q B y D⟩ :: k) k' ∧ s'.world = s.world) ∨
    (∃ s' S, (ppTreeRbBalanceRemoveBlack T.ptr q).run s = some (.next p, s') ∧
      Holds (parentLayout _) s' (⟨d, p, x, S⟩ :: k) T ∧ x.tag = black ∧ RbTree red n S ∧
      SameAround (⟨d, p, x, .nodeS d q B y D⟩ :: k) (⟨d, p, x, S⟩ :: k) ∧ s'.world = s.world) := by
  rw [run_balanceRemoveBlack h]
  by_cases hboth : color B = black ∧ color D = black
  · rw [if_pos hboth]
    obtain ⟨hBc, hDc⟩ := hboth
    obtain rfl := hB.color_eq.symm.trans hBc
    obtain rfl := hD.color_eq.symm.trans hDc
    have hS : RbTree red n (.nodeS d q B (y.withTag red) D) := RbTree.redS (y.tag_withTag red) hB hD
    cases hk with
    | black hx _ hk =>
      obtain ⟨s', hrun, h', hw⟩ := run_balanceRemoveCase3_next h hT hx
      refine .inr ⟨s', _, hrun, h'.down, hx, hS, ?_, hw⟩
      cases d <;> exact ⟨by simp [Ctx.before, AddrTree.nodeS, AddrTree.toList],
        by simp [Ctx.after, AddrTree.nodeS, AddrTree.toList]⟩
    | red hx _ hk =>
      obtain ⟨s', hrun, h', hw⟩ := run_balanceRemoveCase3_done h hT hx
      refine .inl ⟨s', _, red, hrun, h'.down, .black (x.tag_withTag black) hS hk, ?_, hw⟩
      cases d <;> exact ⟨by simp [Ctx.before, AddrTree.nodeS, AddrTree.toList],
        by simp [Ctx.after, AddrTree.nodeS, AddrTree.toList]⟩
  · rw [if_neg hboth]
    left
    cases cD with
    | red =>
      obtain ⟨r, D₁, z, D₂, rfl⟩ := exists_nodeS (hD.ne_nil (.inl rfl)) d
      obtain ⟨-, hD₁, hD₂⟩ := hD.of_redS
      obtain ⟨s', k', c', hrun, h', hk', hsame, hw⟩ := balanceRemoveCase5_step h hT hB hD₁ hD₂ hk
      refine ⟨s', k', c', ?_, h', hk', hsame, hw⟩
      simp [run_balanceRemoveCase4_far h hT hD.color_eq, hrun]
    | black =>
      have hBred : cB = red := by
        cases cB with
        | red => rfl
        | black => exact absurd ⟨hB.color_eq, hD.color_eq⟩ hboth
      subst hBred
      obtain ⟨r, B₁, z, B₂, rfl⟩ := exists_nodeS (hB.ne_nil (.inl rfl)) d
      obtain ⟨-, hB₁, hB₂⟩ := hB.of_redS
      obtain ⟨s₁, hrun₁, h₁, w₁⟩ := run_balanceRemoveCase4_near h hT hD.color_eq
      obtain ⟨s', k', c', hrun, h', hk', hsame, hw⟩ := balanceRemoveCase5_step h₁ hT hB₁ hB₂ hD hk
      refine ⟨s', k', c', by simp [hrun₁, hrun], h', hk', .trans ?_ hsame, hw.trans w₁⟩
      cases d <;> exact ⟨by simp [Ctx.before, AddrTree.nodeS, AddrTree.toList],
        by simp [Ctx.after, AddrTree.nodeS, AddrTree.toList]⟩

/-- One round: the place takes a tree with one black node less, or the same holds of the place of
    the black parent, whose other side has been made red. -/
theorem balanceRemove_step {c : PTreeRBColor} {n : ℕ} (h : Holds (parentLayout _) s k T) (hT : T ≠ .nil)
    (hk : RbCtx c (n + 1) k) :
    (∃ s' k' c', (ppTreeRbBalanceRemoveStep T.ptr).run s = some (.done (), s') ∧
      Holds (parentLayout _) s' k' T ∧ RbCtx c' n k' ∧ SameAround k k' ∧ s'.world = s.world) ∨
    (∃ s' f k' c', (ppTreeRbBalanceRemoveStep T.ptr).run s = some (.next f.a, s') ∧
      Holds (parentLayout _) s' (f :: k') T ∧ f.x.tag = black ∧ RbTree red n f.sib ∧ RbCtx c' (n + 2) k' ∧
      k'.length < k.length ∧ SameAround k (f :: k') ∧ s'.world = s.world) := by
  cases k with
  | nil =>
    refine .inl ⟨s, [], black, ?_, h, .root, .refl _, rfl⟩
    have hpar : (parent T.ptr).run s = some (NULL, s) := h.run_parent_ptr hT
    simp only [ppTreeRbBalanceRemoveStep, StateT.run_bind, hpar, Option.bind_eq_bind, Option.bind_some, if_true]
    rfl
  | cons f k =>
    obtain ⟨d, p, x, S⟩ := f
    have hpar : (parent T.ptr).run s = some (p, s) := h.run_parent_ptr hT
    have h0 : p ≠ 0 := (h.hooked hT _ rfl).1
    have hsib := run_ppTreeRbGetSibling h hT
    have hup : Holds (parentLayout _) s k (.nodeS d p T x S) := h.up
    have hS0 : S ≠ .nil := by
      cases hk with
      | red _ hS _ => exact hS.ne_nil (.inr (by omega))
      | black _ hS _ => exact hS.ne_nil (.inr (by omega))
    have hred := run_ppTreeRbIsRed hup.far hS0
    obtain ⟨q, B, y, D, rfl⟩ := exists_nodeS hS0 d
    rw [AddrTree.ptr_nodeS] at hred hsib
    by_cases hy : y.tag = red
    · -- case 2: the parent is red afterwards, so that the round ends
      left
      cases hk with
      | red _ hS _ => exact absurd (hS.color_eq.symm.trans (color_nodeS.trans hy)) (by simp)
      | @black _ _ _ c _ hx hS hk =>
        obtain rfl : c = red := hS.color_eq.symm.trans (color_nodeS.trans hy)
        obtain ⟨-, hB, hD⟩ := hS.of_redS
        obtain ⟨s₁, e₁, h₁, w₁⟩ := run_balanceRemoveCase2 hup hT
        obtain ⟨b, B₁, w, B₂, rfl⟩ := exists_nodeS (hB.ne_nil (.inr (by omega))) d
        have hround : (ppTreeRbBalanceRemoveStep T.ptr).run s = (ppTreeRbBalanceRemoveBlack T.ptr b).run s₁ := by
          simp [ppTreeRbBalanceRemoveStep, hpar, h0, hsib, hred, hy, e₁]
        obtain ⟨m, c₁, c₂, hm, -, hB₁, hB₂⟩ := hB.of_blackS
        obtain rfl : m = n := by omega
        have hplace : RbCtx black (m + 1) (⟨d, p, x.withTag red, .nodeS d b B₁ w B₂⟩ ::
            ⟨d, q, y.withTag black, D⟩ :: k) :=
          .red (x.tag_withTag red) hB (.black (y.tag_withTag black) hD hk)
        rcases balanceRemoveBlack_step h₁.down hT hB₁ hB₂ hplace with
          ⟨s', k', c', hrun, h', hk', hsame, hw⟩ | ⟨_, _, _, _, hxb, _⟩
        · refine ⟨s', k', c', hround.trans hrun, h', hk', .trans ?_ hsame, hw.trans w₁⟩
          cases d <;>
            exact ⟨by simp [Ctx.before, AddrTree.nodeS, AddrTree.toList],
              by simp [Ctx.after, AddrTree.nodeS, AddrTree.toList]⟩
        · exact absurd ((x.tag_withTag red).symm.trans hxb) (by simp)
    · have hround : (ppTreeRbBalanceRemoveStep T.ptr).run s = (ppTreeRbBalanceRemoveBlack T.ptr q).run s := by
        simp [ppTreeRbBalanceRemoveStep, hpar, h0, hsib, hred, hy]
      have hS : RbTree black (n + 1) (.nodeS d q B y D) := by
        cases hk with
        | red _ hS _ => exact hS
        | @black _ _ _ c _ _ hS _ =>
          cases c with
          | red => exact absurd hS.of_redS.1 hy
          | black => exact hS
      obtain ⟨m, cB, cD, hm, -, hB, hD⟩ := hS.of_blackS
      obtain rfl : m = n := by omega
      rw [hround]
      rcases balanceRemoveBlack_step hup hT hB hD hk with h' | ⟨s', S', hrun, h', hx, hS', hsame, hw⟩
      · exact .inl h'
      · cases hk with
        | red hxr _ _ => exact absurd (hxr.symm.trans hx) (by simp)
        | black _ _ hk => exact .inr ⟨s', _, k, _, hrun, h', hx, hS', hk, by simp, hsame, hw⟩

/-- **The balancing of a removal** lets the tree do without the node `D`. -/
theorem run_ppTreeRbBalanceRemove {c : PTreeRBColor} {n fuel : ℕ} (kin : RbPlace) (D : RbNode)
    (h : Holds (parentLayout _) s k (Ctx.plug kin D)) (hD : D ≠ .nil)
    (hin : ∀ t, RbTree black 0 t → RbTree black n (Ctx.plug kin t)) (hk : RbCtx c (n + 1) k)
    (hfuel : k.length < fuel) :
    ∃ s' k' m, (ppTreeRbBalanceRemove fuel (Ctx.plug kin D).ptr).run s = some ((), s') ∧
      Holds (parentLayout _) s' k' D ∧ RbTree black m (Ctx.plug k' .nil) ∧ SameAround (kin ++ k) k' ∧
      s'.world = s.world := by
  induction fuel generalizing s k c n kin with
  | zero => omega
  | succ fuel ih =>
    have hT : Ctx.plug kin D ≠ .nil := Ctx.plug_ne_nil hD
    rcases balanceRemove_step h hT hk with ⟨s', k', c', hrun, h', hk', hsame, hw⟩ |
      ⟨s', f, k', c', hrun, h', hx, hS, hk', hlen, hsame, hw⟩
    · obtain ⟨m, hm⟩ := hk'.plug (hin .nil .nil) (by simp)
      exact ⟨s', kin ++ k', m, loop_done hrun, zip_append.2 h', by rwa [Ctx.plug_append], hsame.append kin, hw⟩
    · have hf : Ctx.plug (kin ++ [f]) D = f.plug (Ctx.plug kin D) := by rw [Ctx.plug_append]; rfl
      have hup : Holds (parentLayout _) s' k' (Ctx.plug (kin ++ [f]) D) := hf ▸ h'.up
      have hin' : ∀ t, RbTree black 0 t → RbTree black (n + 1) (Ctx.plug (kin ++ [f]) t) := by
        intro t ht
        rw [Ctx.plug_append]
        exact RbTree.blackS hx (hin t ht) hS
      obtain ⟨s'', k'', m, hrun', h'', hm, hsame', hw'⟩ := ih (kin ++ [f]) hup hin' hk' (by omega)
      rw [hf, Frame.plug, AddrTree.ptr_nodeS] at hrun'
      refine ⟨s'', k'', m, (loop_next hrun).trans hrun', h'', hm, .trans (hsame.append kin) ?_, hw'.trans hw⟩
      simpa using hsame'

/-! ## The removal -/

theorem run_ppTreeRbIsBlack_get {b : ppointer} {n : PTreeRBNode} (h0 : b ≠ NULL) (hg : s.get b = some n) :
    (ppTreeRbIsBlack b).run s = some (decide (n.ext.tag = black), s) := by
  simp [ppTreeRbIsBlack, h0, run_tag, hg]

section
variable {m : ℕ} {u : RbNode} (kd vd : Option (PDestroyFunc ω))

/-- The node has a child: the child is red, and becomes black. -/
theorem run_rbUnlink_child (h : Holds (parentLayout _) s k (.nodeS d p .nil y u)) (hu : u ≠ .nil)
    (hm : RbTree black m (Ctx.plug k (.nodeS d p .nil y u))) :
    ∃ s₁ s₂ s₃ s' v m', (replaceNode p u.ptr).run s = some (Ctx.par k, s₁) ∧
      (setParent u.ptr (Ctx.par k)).run s₁ = some ((), s₂) ∧
      (ppTreeRbIsBlack p).run s₂ = some (true, s₂) ∧ (setTag u.ptr black).run s₂ = some ((), s₃) ∧
      (freeNode kd vd p).run s₃ = some ((), s') ∧ Holds (parentLayout _) s' [] v ∧ RbTree black m' v ∧
      pairs v = pairs (Ctx.plug k u) ∧ s'.world = notifiedPair kd vd y.pair s.world := by
  obtain ⟨c, n, c', hk, hnode, -⟩ := rbCtx_of_plug hm
  obtain ⟨hy, hured⟩ : y.tag = black ∧ RbTree red 0 u ∧ n = 1 := by
    cases c' with
    | red =>
      obtain ⟨-, hnil, hu'⟩ := hnode.of_redS
      cases hnil
      cases hu'
      exact absurd rfl hu
    | black =>
      obtain ⟨n, c₁, c₂, rfl, hy, hnil, hu'⟩ := hnode.of_blackS
      cases hnil
      cases c₂ with
      | red => exact ⟨hy, hu', rfl⟩
      | black =>
        cases hu'
        exact absurd rfl hu
  obtain ⟨hured, rfl⟩ := hured
  obtain ⟨e, ul, z, ur, rfl⟩ := exists_nodeS hu .left
  obtain ⟨-, hul, hur⟩ := hured.of_redS
  obtain ⟨s₁, s₂, hrep, hpar, -, h₂, hg₂, w₂⟩ := h.run_unlink
  obtain ⟨s₃, hset, h₃, w₃⟩ := h₂.run_setTagS black
  have hpu : p ≠ e := by
    have := h.child_apart.1
    rwa [AddrTree.ptr_nodeS] at this
  have hg₃ := (get_of_run_setTag hset hpu).trans hg₂
  obtain ⟨s', hfree, h', w'⟩ := h.run_freeBypassed kd vd h₃ rfl hg₃
  have hblack := run_ppTreeRbIsBlack_get (by simpa using h.ne_null (AddrTree.nodeS_ne_nil _ _ _ _ _)) hg₂
  rw [tag_cellS, decide_eq_true hy] at hblack
  obtain ⟨m', hm'⟩ := hk.plug (RbTree.blackS (d := .left) (a := e) (z.tag_withTag black) hul hur) (by simp)
  refine ⟨s₁, s₂, s₃, s', _, m', hrep, hpar hu, hblack,
    by rwa [AddrTree.ptr_nodeS], hfree, zip_plug.1 h', hm', ?_, ?_⟩
  · exact pairs_plug_congr (by simp [AddrTree.nodeS])
  · rw [w', w₃, w₂]

end

/-- **Removal.** -/
theorem run_pTreeRbRemove {t : RbNode} {m fuel : ℕ} {compare_func : PCompareDataFunc}
    {kd vd : Option (PDestroyFunc ω)} {key : ppointer} (h : Holds (parentLayout _) s [] t) (ht : RbTree black m t)
    (hd : AddrTree.Directed (fun p => compare_func key p.1) (pairs t)) (hfuel : t.size < fuel) :
    ∃ s' t' b m', (pTreeRbRemove fuel compare_func kd vd key).run s = some (b, s') ∧
      Holds (parentLayout _) s' [] t' ∧ RbTree black m' t' ∧
      RemoveEffect compare_func kd vd key t s.world (pairs t') s'.world b := by
  have hroot : s.root = t.ptr := h.root_eq
  have hfind := run_findNode compare_func key h hfuel
  rcases hs : t.search (keyCmp compare_func key) [] with ⟨k, u⟩
  rw [hs, ← hroot] at hfind
  cases u with
  | nil =>
    refine ⟨s, t, false, m, ?_, h, ht, removeEffect_absent hs hd⟩
    simp [pTreeRbRemove, hfind]
  | node a l x r =>
    have hk : Holds (parentLayout _) s k (.node a l x r) :=
      Zip.refocus h (by simpa [Ctx.plug] using plug_of_search hs)
    have ha : a ≠ 0 := hk.ne_null (by simp)
    obtain ⟨s₁, k', d, b, u, y, x', hmark, h₁, hplug, hx', heff, hlen⟩ :=
      h.run_markNode kd vd hs hd (Nat.le_of_lt hfuel)
    obtain ⟨m', hm'⟩ : ∃ m, RbTree black m (Ctx.plug k' (.nodeS d b .nil y u)) := by
      rw [hplug]
      exact rbTree_plug_item (d := .left) ((plug_of_search hs).symm ▸ ht) hx'
    have hchild := h₁.run_onlyChild
    have hblack₁ := run_ppTreeRbIsBlack h₁
    rw [AddrTree.ptr_nodeS, color_nodeS] at hblack₁
    by_cases hu : u = .nil
    · subst hu
      by_cases hy : y.tag = black
      · obtain ⟨c, n, c', hk', hnode, -⟩ := rbCtx_of_plug hm'
        obtain rfl : c' = black := hnode.color_eq.symm.trans (color_nodeS.trans hy)
        obtain ⟨n, _, _, rfl, -, hnil, -⟩ := hnode.of_blackS
        cases hnil
        obtain ⟨s₂, k₂, m₂, hbal, h₂, hm₂, hsame, w₂⟩ := run_ppTreeRbBalanceRemove [] (.nodeS d b .nil y .nil) h₁
          (AddrTree.nodeS_ne_nil _ _ _ _ _) (fun t ht => ht) hk' (Nat.lt_trans hlen hfuel)
        simp only [Ctx.plug, AddrTree.ptr_nodeS, List.nil_append] at hbal hsame
        obtain ⟨s₃, s', hrep, hfree, h', hw⟩ := h₂.run_unlinkLeaf kd vd
        refine ⟨s', _, true, m₂, ?_, h', hm₂, ?_⟩
        · simp [pTreeRbRemove, hfind, ha, hmark, hchild, hblack₁, hy, hbal, hrep, hfree]
        · rw [hw, w₂, ← hsame.pairs_plug]
          exact heff
      · obtain ⟨s₃, s', hrep, hfree, h', hw⟩ := h₁.run_unlinkLeaf kd vd
        obtain ⟨c, n, c', hk', hnode, hc⟩ := rbCtx_of_plug hm'
        obtain rfl : c' = red := by
          cases c' with
          | red => rfl
          | black => exact absurd (color_nodeS.symm.trans hnode.color_eq) hy
        obtain ⟨m₂, hm₂⟩ := hk'.plug hnode.of_redS.2.1 (by simp)
        refine ⟨s', _, true, m₂, ?_, h', hm₂, ?_⟩
        · simp [pTreeRbRemove, hfind, ha, hmark, hchild, hblack₁, hy, hrep, hfree]
        · rw [hw]
          exact heff
    · obtain ⟨s₂, s₃, s₄, s', v, m', hrep, hpar, hblack, hset, hfree, h', hm', hv, hw⟩ :=
        run_rbUnlink_child kd vd h₁ hu hm'
      have hu0 : u.ptr ≠ 0 := (Holds.ne_null (h₁.far) hu)
      refine ⟨s', v, true, m', ?_, h', hm', ?_⟩
      · simp [pTreeRbRemove, hfind, ha, hmark, hchild, hblack₁, hu0, hrep, hpar, hblack, hset, hfree]
      · rw [hv, hw]
        exact heff

end Plibsys
