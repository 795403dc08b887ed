/-
  Insertion into a red-black tree keeps the red-black property.
-/
import Plibsys.Tree.RbInvariant

namespace Plibsys

open Looping Linked PTreeRBColor

variable {ω : Type}

/-! ## Reading around the focus -/

variable {s : Mem (ParentExt PTreeRBColor) ω} {k : RbPlace} {t l r : RbNode} {a : ℕ} {d : Side}
  {f g : Frame (Item PTreeRBColor)} {x : Item PTreeRBColor}

theorem run_ppTreeRbIsBlack (h : Holds (parentLayout _) s k t) :
    (ppTreeRbIsBlack t.ptr).run s = some (decide (color t = black), s) := by
  cases t with
  | nil => rfl
  | node a l x r =>
    have h0 : a ≠ 0 := h.ne_null (by simp)
    simp [ppTreeRbIsBlack, h0, run_tag, h.get, color]
    rfl

theorem run_ppTreeRbIsRed (h : Holds (parentLayout _) s k t) (ht : t ≠ .nil) :
    (ppTreeRbIsRed t.ptr).run s = some (decide (color t = red), s) := by
  cases t with
  | nil => exact absurd rfl ht
  | node a l x r =>
    simp [ppTreeRbIsRed, run_tag, h.get, color]
    rfl

@[simp] theorem color_nodeS : color (.nodeS d a l x r) = x.tag := by cases d <;> rfl

theorem run_ppTreeRbGetSibling (h : Holds (parentLayout _) s (f :: k) t) (ht : t ≠ .nil) :
    (ppTreeRbGetSibling t.ptr).run s = some (f.sib.ptr, s) := by
  have hp : (parent t.ptr).run s = some (f.a, s) := h.run_parent_ptr ht
  have hne := h.sib_ne ht
  have hl := h.run_left_par
  have hr := h.run_right_par
  simp only [ppTreeRbGetSibling, StateT.run_bind, Option.bind_eq_bind, Option.bind_some, hp, hl]
  cases hd : f.side <;> simp only [hd] at hl hr
  · simp only [if_true, StateT.run_bind, hp, Option.bind_eq_bind, Option.bind_some, hr]
  · simp only [if_neg hne, StateT.run_bind, hp, Option.bind_eq_bind, Option.bind_some, hl]

theorem run_ppTreeRbGetGparent (h : Holds (parentLayout _) s (f :: g :: k) t) (ht : t ≠ .nil) :
    (ppTreeRbGetGparent t.ptr).run s = some (g.a, s) := by
  have hp : (parent t.ptr).run s = some (f.a, s) := h.run_parent_ptr ht
  have hg := Holds.run_parent_ptr h.up (AddrTree.nodeS_ne_nil f.side f.a t f.sib f.x)
  rw [Frame.plug, AddrTree.ptr_nodeS] at hg
  simp only [ppTreeRbGetGparent, StateT.run_bind, Option.bind_eq_bind, Option.bind_some, hp, hg]
  rfl

theorem run_ppTreeRbGetUncle (h : Holds (parentLayout _) s (f :: g :: k) t) (ht : t ≠ .nil) :
    (ppTreeRbGetUncle t.ptr).run s = some (g.sib.ptr, s) := by
  have hp : (parent t.ptr).run s = some (f.a, s) := h.run_parent_ptr ht
  have hne := Holds.sib_ne h.up (AddrTree.nodeS_ne_nil f.side f.a t f.sib f.x)
  have hl := Holds.run_left_par h.up
  have hr := Holds.run_right_par h.up
  rw [Frame.plug, AddrTree.ptr_nodeS] at hl hr
  rw [Frame.plug, AddrTree.ptr_nodeS] at hne
  simp only [ppTreeRbGetUncle, StateT.run_bind, Option.bind_eq_bind, Option.bind_some,
    run_ppTreeRbGetGparent h ht, hp, hl]
  cases hd : g.side <;> simp only [hd] at hl hr
  · simp only [if_true, hr]
  · simp only [if_neg hne, hl]

/-! ## One round of the balancing -/

theorem balanceInsert_root (h : Holds (parentLayout _) s [] (.node a l x r)) :
    ∃ s', (ppTreeRbBalanceInsertStep a).run s = some (.done (), s') ∧
      Holds (parentLayout _) s' [] (.node a l (x.withTag black) r) ∧ s'.world = s.world := by
  obtain ⟨s', e, h', hw⟩ := h.run_setTag black
  refine ⟨s', ?_, h', hw⟩
  have hp : (parent a).run s = some (NULL, s) := h.run_parent_ptr (by simp)
  simp only [ppTreeRbBalanceInsertStep, StateT.run_bind, Option.bind_eq_bind, Option.bind_some, hp,
    if_true, e]
  rfl

theorem balanceInsert_blackParent (h : Holds (parentLayout _) s (f :: k) t) (ht : t ≠ .nil)
    (hf : f.x.tag = black) : (ppTreeRbBalanceInsertStep t.ptr).run s = some (.done (), s) := by
  have hp : (parent t.ptr).run s = some (f.a, s) := h.run_parent_ptr ht
  have hup : Holds (parentLayout _) s k (f.plug t) := h.up
  have h0 : f.a ≠ 0 := (h.hooked ht f rfl).1
  have hb := run_ppTreeRbIsBlack hup
  rw [Frame.plug, AddrTree.ptr_nodeS, color_nodeS] at hb
  simp only [ppTreeRbBalanceInsertStep, StateT.run_bind, Option.bind_eq_bind, Option.bind_some, hp,
    if_neg h0, hb, hf, decide_true, if_true]
  rfl

/-- Case 3: the parent and the uncle are red. -/
theorem balanceInsert_flip {u : ℕ} {ul ur : RbNode} {ux : Item PTreeRBColor} {e : Side} {p q : ℕ}
    {S : RbNode} {px gx : Item PTreeRBColor}
    (h : Holds (parentLayout _) s (⟨e, p, px, S⟩ :: ⟨d, q, gx, .node u ul ux ur⟩ :: k) t) (ht : t ≠ .nil)
    (hp : px.tag = red) (hu : ux.tag = red) :
    ∃ s', (ppTreeRbBalanceInsertStep t.ptr).run s = some (.next q, s') ∧
      Holds (parentLayout _) s' k (.nodeS d q (.nodeS e p t (px.withTag black) S) (gx.withTag red)
        (.node u ul (ux.withTag black) ur)) ∧ s'.world = s.world := by
  have hpar : (parent t.ptr).run s = some (p, s) := h.run_parent_ptr ht
  have h0 : p ≠ 0 := (h.hooked ht _ rfl).1
  have hup : Holds (parentLayout _) s (⟨d, q, gx, .node u ul ux ur⟩ :: k) (.nodeS e p t px S) := h.up
  have hblack := run_ppTreeRbIsBlack hup
  rw [AddrTree.ptr_nodeS, color_nodeS] at hblack
  have huncle := run_ppTreeRbGetUncle h ht
  have hgpar := run_ppTreeRbGetGparent h ht
  have hsib : Holds (parentLayout _) s (⟨d.other, q, gx, .nodeS e p t px S⟩ :: k) (.node u ul ux ur) :=
    Zip.refocus h (by simp [Ctx.plug, Frame.plug, AddrTree.nodeS_other])
  have hu0 : u ≠ 0 := hsib.ne_null (by simp)
  have hred := run_ppTreeRbIsRed hsib (by simp)
  obtain ⟨s₁, e₁, h₁, w₁⟩ := hup.run_setTagS black
  have h₁' : Holds (parentLayout _) s₁ (⟨d.other, q, gx, .nodeS e p t (px.withTag black) S⟩ :: k)
      (.node u ul ux ur) := Zip.refocus h₁ (by simp [Ctx.plug, Frame.plug, AddrTree.nodeS_other])
  obtain ⟨s₂, e₂, h₂, w₂⟩ := h₁'.run_setTag black
  obtain ⟨s₃, e₃, h₃, w₃⟩ := Holds.run_setTagS h₂.up red
  rw [AddrTree.nodeS_other] at h₃
  refine ⟨s₃, ?_, h₃, w₃.trans (w₂.trans w₁)⟩
  simp only [AddrTree.ptr_node] at huncle hred
  simp [ppTreeRbBalanceInsertStep, hpar, h0, hblack, hp, huncle, hgpar, hu0, hred, color, hu, e₁, e₂, e₃]

/-- The colour changes and the rotation of case 5. -/
theorem balanceInsert_rotate {p q : ℕ} {S U : RbNode} {px gx : Item PTreeRBColor}
    (h : Holds (parentLayout _) s k (.nodeS d q (.nodeS d p t px S) gx U)) (ht : t ≠ .nil) :
    ∃ s₁ s₂ s', (setTag q red).run s = some ((), s₁) ∧ (parent t.ptr).run s₁ = some (p, s₁) ∧
      (setTag p black).run s₁ = some ((), s₂) ∧ (ppTreeRbRotate d.other q).run s₂ = some ((), s') ∧
      Holds (parentLayout _) s' k (.nodeS d p t (px.withTag black) (.nodeS d q S (gx.withTag red) U)) ∧
      s'.world = s.world := by
  obtain ⟨s₁, e₁, h₁, w₁⟩ := h.run_setTagS red
  obtain ⟨s₂, e₂, h₂, w₂⟩ := h₁.down.run_setTagS black
  have h₂' : Holds (parentLayout _) s₂ k
      (.nodeS d.other q U (gx.withTag red) (.nodeS d.other p S (px.withTag black) t)) := by
    rw [AddrTree.nodeS_other, AddrTree.nodeS_other]
    exact h₂.up
  obtain ⟨s₃, e₃, h₃, w₃⟩ := ppTreeRbRotate_spec h₂'
  rw [AddrTree.nodeS_other, AddrTree.nodeS_other] at h₃
  exact ⟨s₁, s₂, s₃, e₁, h₁.down.down.run_parent_ptr ht, e₂, e₃, h₃, w₃.trans (w₂.trans w₁)⟩

/-- Cases 4 and 5, the node being the outer grandchild. -/
theorem run_balanceInsertRotate_outer {p q : ℕ} {S U : RbNode} {px gx : Item PTreeRBColor}
    (h : Holds (parentLayout _) s k (.nodeS d q (.nodeS d p t px S) gx U)) (ht : t ≠ .nil) :
    ∃ s', (ppTreeRbBalanceInsertRotate d t.ptr q).run s = some ((), s') ∧
      Holds (parentLayout _) s' k (.nodeS d p t (px.withTag black) (.nodeS d q S (gx.withTag red) U)) ∧
      s'.world = s.world := by
  obtain ⟨s₁, s₂, s', e₁, hp, e₂, e₃, h', w'⟩ := balanceInsert_rotate h ht
  refine ⟨s', ?_, h', w'⟩
  have hpar : (parent t.ptr).run s = some (p, s) := h.down.down.run_parent_ptr ht
  have hne : S.ptr ≠ t.ptr := Holds.sib_ne h.down.down ht
  have hfar : (child d.other p).run s = some (S.ptr, s) := run_child_other h.down.getS
  simp [ppTreeRbBalanceInsertRotate, hpar, hfar, hne.symm, e₁, hp, e₂, e₃]

/-- Cases 4 and 5, the node being the inner grandchild. -/
theorem run_balanceInsertRotate_inner {p q n : ℕ} {S A B U : RbNode} {px gx : Item PTreeRBColor}
    (h : Holds (parentLayout _) s k (.nodeS d q (.nodeS d p S px (.nodeS d n A x B)) gx U)) :
    ∃ s', (ppTreeRbBalanceInsertRotate d n q).run s = some ((), s') ∧
      Holds (parentLayout _) s' k
        (.nodeS d n (.nodeS d p S px A) (x.withTag black) (.nodeS d q B (gx.withTag red) U)) ∧
      s'.world = s.world := by
  have hn : Holds (parentLayout _) s (⟨d.other, p, px, S⟩ :: ⟨d, q, gx, U⟩ :: k) (.nodeS d n A x B) :=
    Zip.refocus h.down (by simp [Ctx.plug, Frame.plug, AddrTree.nodeS_other])
  have hpar := hn.run_parent_ptr (AddrTree.nodeS_ne_nil _ _ _ _ _)
  have hfar : (child d.other p).run s = some (n, s) := by
    rw [run_child_other h.down.getS, AddrTree.ptr_nodeS]
  obtain ⟨s₀, e₀, h₀, w₀⟩ := ppTreeRbRotate_spec h.down
  have hup : Holds (parentLayout _) s₀ k (.nodeS d q (.nodeS d n (.nodeS d p S px A) x B) gx U) := h₀.up
  obtain ⟨s₁, s₂, s', e₁, hp, e₂, e₃, h', w'⟩ := balanceInsert_rotate hup (AddrTree.nodeS_ne_nil _ _ _ _ _)
  refine ⟨s', ?_, h', w'.trans w₀⟩
  have hnear : (child d n).run s₀ = some (p, s₀) := by
    rw [run_child h₀.getS, AddrTree.ptr_nodeS]
  rw [AddrTree.ptr_nodeS] at hpar hp
  simp [ppTreeRbBalanceInsertRotate, hpar, Ctx.par, hfar, e₀, hnear, e₁, hp, e₂, e₃]

/-- The round ends with rotations when the uncle is black. -/
theorem balanceInsert_rotations {e : Side} {p q : ℕ} {S U : RbNode} {px gx : Item PTreeRBColor}
    {s' : Mem (ParentExt PTreeRBColor) ω}
    (h : Holds (parentLayout _) s (⟨e, p, px, S⟩ :: ⟨d, q, gx, U⟩ :: k) t) (ht : t ≠ .nil)
    (hp : px.tag = red) (hU : color U = black)
    (hrot : (ppTreeRbBalanceInsertRotate d t.ptr q).run s = some ((), s')) :
    (ppTreeRbBalanceInsertStep t.ptr).run s = some (.done (), s') := by
  have hpar : (parent t.ptr).run s = some (p, s) := h.run_parent_ptr ht
  have h0 : p ≠ 0 := (h.hooked ht _ rfl).1
  have hup : Holds (parentLayout _) s (⟨d, q, gx, U⟩ :: k) (.nodeS e p t px S) := h.up
  have hblack := run_ppTreeRbIsBlack hup
  have hne := hup.sib_ne (AddrTree.nodeS_ne_nil _ _ _ _ _)
  have hleft := hup.run_left_par
  rw [AddrTree.ptr_nodeS] at hblack hne hleft
  rw [color_nodeS, hp, decide_eq_false (by simp)] at hblack
  have huncle := run_ppTreeRbGetUncle h ht
  have hgpar := run_ppTreeRbGetGparent h ht
  have hsib : Holds (parentLayout _) s (⟨d.other, q, gx, .nodeS e p t px S⟩ :: k) U :=
    Zip.refocus h (by simp [Ctx.plug, Frame.plug, AddrTree.nodeS_other])
  have hred : (if U.ptr ≠ NULL then ppTreeRbIsRed U.ptr else pure false : RbM ω Bool).run s =
      some (false, s) := by
    by_cases hnil : U = .nil
    · simp [hnil]
    · rw [if_pos (hsib.ne_null hnil), run_ppTreeRbIsRed hsib hnil, hU]
      rfl
  cases d <;> simp only at hleft hne huncle
  · simp only [ppTreeRbBalanceInsertStep, StateT.run_bind, Option.bind_eq_bind, Option.bind_some, hpar, if_neg h0,
      hblack, Bool.false_eq_true, if_false, huncle, hgpar, hred, hleft, if_true, hrot]
    rfl
  · simp only [ppTreeRbBalanceInsertStep, StateT.run_bind, Option.bind_eq_bind, Option.bind_some, hpar, if_neg h0,
      hblack, Bool.false_eq_true, if_false, huncle, hgpar, hred, hleft, if_neg hne.symm, hrot]
    rfl

theorem Side.eq_or_other (d e : Side) : e = d ∨ e = d.other := by cases d <;> cases e <;> simp [Side.other]

/-! ## The loop -/

/-- What one round does: it completes the tree, or it moves a red tree further up. -/
theorem balanceInsert_step {c : PTreeRBColor} {n : ℕ} (h : Holds (parentLayout _) s k t)
    (ht : RbTree red n t) (hk : RbCtx c n k) :
    (∃ s' u m, (ppTreeRbBalanceInsertStep t.ptr).run s = some (.done (), s') ∧
      Holds (parentLayout _) s' [] u ∧ RbTree black m u ∧ pairs u = pairs (Ctx.plug k t) ∧
      s'.world = s.world) ∨
    (∃ s' k' u m c', (ppTreeRbBalanceInsertStep t.ptr).run s = some (.next u.ptr, s') ∧
      Holds (parentLayout _) s' k' u ∧ RbTree red m u ∧ RbCtx c' m k' ∧ k'.length < k.length ∧
      pairs (Ctx.plug k' u) = pairs (Ctx.plug k t) ∧ s'.world = s.world) := by
  have hnil : t ≠ .nil := by rintro rfl; cases ht
  cases hk with
  | root =>
    left
    cases ht with
    | red hx hl hr =>
      obtain ⟨s', hrun, h', hw⟩ := balanceInsert_root h
      exact ⟨s', _, _, hrun, h', .black rfl hl hr, by simp [Ctx.plug], hw⟩
  | black hx hs hk =>
    left
    obtain ⟨m, hm⟩ := (RbCtx.black hx hs hk).plug ht fun _ => rfl
    exact ⟨s, _, m, balanceInsert_blackParent h hnil hx, zip_plug.1 h, hm, rfl, rfl⟩
  | @red _ f k hx hs hk =>
    -- the place takes a red parent, so there is a grandparent, and it is black
    cases hk with
    | @black _ g k c c' hgx hgs hk =>
      obtain ⟨e, p, px, S⟩ := f
      obtain ⟨d, q, gx, U⟩ := g
      cases c with
      | red =>
        right
        cases U with
        | nil => cases hgs
        | node u ul ux ur =>
          obtain ⟨hux, hul, hur⟩ := RbTree.of_redS (d := .left) hgs
          obtain ⟨s', hrun, h', hw⟩ := balanceInsert_flip h hnil hx hux
          refine ⟨s', k, _, n + 1, c',
            by simpa using hrun, h', ?_, hk, by simp only [List.length_cons]; omega, ?_, hw⟩
          · exact RbTree.redS rfl (RbTree.blackS rfl ht hs) (.black rfl hul hur)
          · exact pairs_plug_congr (by cases d <;> cases e <;> simp [AddrTree.nodeS, Frame.plug])
      | black =>
        left
        rcases Side.eq_or_other d e with rfl | rfl
        · obtain ⟨s', hrun, h', hw⟩ := run_balanceInsertRotate_outer h.up.up hnil
          obtain ⟨m, hm⟩ := hk.plug (RbTree.blackS (d := e) (px.tag_withTag black) ht
            (RbTree.redS (d := e) (gx.tag_withTag red) hs hgs)) (by simp)
          refine ⟨s', _, m, balanceInsert_rotations h hnil hx hgs.color_eq hrun, zip_plug.1 h', hm, ?_, hw⟩
          exact pairs_plug_congr (by cases e <;> simp [AddrTree.nodeS, Frame.plug])
        · obtain ⟨n', A, x, B, rfl⟩ : ∃ n' A x B, t = .nodeS d n' A x B := by
            cases t with
            | nil => exact absurd rfl hnil
            | node n' l x r => cases d <;> exact ⟨n', _, x, _, rfl⟩
          obtain ⟨hxr, hA, hB⟩ := ht.of_redS
          have hg : Holds (parentLayout _) s k (.nodeS d q (.nodeS d p S px (.nodeS d n' A x B)) gx U) :=
            Zip.refocus h (by simp [Ctx.plug, Frame.plug, AddrTree.nodeS_other])
          obtain ⟨s', hrun, h', hw⟩ := run_balanceInsertRotate_inner hg
          rw [← AddrTree.ptr_nodeS d n' A B x] at hrun
          obtain ⟨m, hm⟩ := hk.plug (RbTree.blackS (d := d) (x.tag_withTag black) (RbTree.redS (d := d) hx hs hA)
            (RbTree.redS (d := d) (gx.tag_withTag red) hB hgs)) (by simp)
          refine ⟨s', _, m, balanceInsert_rotations h hnil hx hgs.color_eq hrun, zip_plug.1 h', hm, ?_, hw⟩
          exact pairs_plug_congr (by cases d <;> simp [AddrTree.nodeS, Frame.plug, Side.other])

/-- **The balancing of an insertion** restores the red-black property. -/
theorem run_ppTreeRbBalanceInsert {c : PTreeRBColor} {n fuel : ℕ} (h : Holds (parentLayout _) s k t)
    (ht : RbTree red n t) (hk : RbCtx c n k) (hfuel : k.length < fuel) :
    ∃ s' u m, (ppTreeRbBalanceInsert fuel t.ptr).run s = some ((), s') ∧
      Holds (parentLayout _) s' [] u ∧ RbTree black m u ∧ pairs u = pairs (Ctx.plug k t) ∧
      s'.world = s.world := by
  induction fuel generalizing s k t c n with
  | zero => omega
  | succ fuel ih =>
    rcases balanceInsert_step h ht hk with ⟨s', u, m, hrun, h', hu, hp, hw⟩ |
      ⟨s', k', u, m, c', hrun, h', hu, hk', hlen, hp, hw⟩
    · exact ⟨s', u, m, loop_done hrun, h', hu, hp, hw⟩
    · obtain ⟨s'', u', m', hrun', h'', hu', hp', hw'⟩ := ih h' hu hk' (by omega)
      exact ⟨s'', u', m', (loop_next hrun).trans hrun', h'', hu', hp'.trans hp, hw'.trans hw⟩

/-- **Insertion.** -/
theorem run_pTreeRbInsert {m fuel : ℕ} {compare_func : PCompareDataFunc} {kd vd : Option (PDestroyFunc ω)}
    {key value mem : ppointer} (h : Holds (parentLayout _) s [] t) (ht : RbTree black m t)
    (hd : AddrTree.Directed (fun p => compare_func key p.1) (pairs t)) (hfuel : t.size < fuel)
    (h0 : mem ≠ NULL) (hfree : s.get mem = none) :
    ∃ s' t' b m', (pTreeRbInsert fuel compare_func kd vd key value mem).run s = some (b, s') ∧
      Holds (parentLayout _) s' [] t' ∧ RbTree black m' t' ∧
      InsertEffect compare_func kd vd key value (pairs t) s.world (pairs t') s'.world b := by
  obtain ⟨p, hfind, hpar⟩ := run_findLink compare_func key h hfuel
  rcases hs : t.search (keyCmp compare_func key) [] with ⟨k, u⟩
  have hplug := plug_of_search hs
  rw [hs] at hfind hpar
  have ht' : RbTree black m (Ctx.plug k u) := hplug.symm ▸ ht
  have hku : Holds (parentLayout _) s k u := Zip.refocus h (by simpa [Ctx.plug] using hplug)
  have hread := run_readLink hku
  cases u with
  | node a l x r =>
    have ha : a ≠ 0 := hku.ne_null (by simp)
    obtain ⟨s', hrun, h', hw⟩ := hku.run_replacePair kd vd key value
    obtain ⟨m', hm'⟩ : ∃ m, RbTree black m (Ctx.plug k (.node a l (x.withPair (key, value)) r)) :=
      rbTree_plug_item (d := .left) ht' rfl
    refine ⟨s', _, false, m', ?_, zip_plug.1 h', hm', hw ▸ insertEffect_replaced hs hd⟩
    simp [pTreeRbInsert, hfind, hread, ha, hrun]
  | nil =>
    obtain ⟨s₁, hwrite, hnew, h₁, w₁⟩ := hku.run_graft (x := ⟨key, value, red⟩) h0 hfree rfl
    obtain ⟨c, n, c', hk, hnil, -⟩ := rbCtx_of_plug ht'
    cases hnil
    have hlen : k.length < fuel := by
      have := Ctx.length_le k
      have := Ctx.size_plug k .nil
      rw [hplug] at this
      omega
    obtain ⟨s', t', m', hrun, h', hm', hp, w'⟩ :=
      run_ppTreeRbBalanceInsert h₁ (RbTree.red rfl .nil .nil) hk hlen
    have hread₁ := run_readLink h₁
    refine ⟨s', t', true, m', ?_, h', hm', (w'.trans w₁) ▸ insertEffect_added hs hd hp rfl⟩
    rw [AddrTree.ptr_node] at hread₁ hrun
    rw [hpar rfl] at hfind
    have hnew' : (newNode mem ⟨NULL, NULL, key, value, ⟨Ctx.par k, red⟩⟩).run
        (s.hookRoot (parentLayout _) k mem) = some ((), s₁) := hnew
    simp [pTreeRbInsert, hfind, hread, hwrite, h0, hnew', hread₁, hrun]

end Plibsys
