/-
  The rotations of the red-black and the AVL tree turn the tree at the focus into the
  rotated one, with the parent pointers of the rotated nodes, of the subtree that changes
  sides and the link from above kept in step.
-/
import Plibsys.Tree.Change

namespace Plibsys

open Looping Linked

variable {ω : Type}

/-! ## The red-black tree -/

theorem ppTreeRbRotate_spec {s : Mem (ParentExt PTreeRBColor) ω} {d : Side} {p q : ppointer}
    {A B D : AddrTree (Item PTreeRBColor)} {x y : Item PTreeRBColor} {k : Ctx (Item PTreeRBColor)}
    (h : Holds (parentLayout _) s k (.nodeS d p A x (.nodeS d q B y D))) :
    ∃ s', (ppTreeRbRotate d p).run s = some ((), s') ∧
      Holds (parentLayout _) s' k (.nodeS d q (.nodeS d p A x B) y D) ∧ s'.world = s.world := by
  obtain ⟨hpq, hpB, hqB, hpk, hqk, hBk, hf⟩ := h.far_apart
  have hooked := h.hooked (AddrTree.nodeS_ne_nil d p A _ x)
  obtain ⟨hp, -, hqs⟩ := rep_nodeS.1 h.sub
  obtain ⟨hq, hBs, -⟩ := rep_nodeS.1 hqs
  rw [AddrTree.ptr_nodeS] at hp hooked
  let N := parentLayout PTreeRBColor
  let s₁ := s.hook N k q
  let s₂ := s₁.modify p (N.setLink d.other B.ptr)
  let s₃ := s₂.adopt B.ptr p
  let s₄ := s₃.modify q (N.setLink d p)
  let s₅ := s₄.modify q (N.setParent (Ctx.par k))
  let s₆ := s₅.modify p (N.setParent q)
  have p₁ : s₁.get p = some (N.cellS d A.ptr q (Ctx.par k) x) := (Mem.get_hook_of_ne hpk).trans hp
  have q₁ : s₁.get q = some (N.cellS d B.ptr D.ptr p y) := (Mem.get_hook_of_ne hqk).trans hq
  have p₂ : s₂.get p = some (N.cellS d A.ptr B.ptr (Ctx.par k) x) :=
    (Mem.get_modify_eq _ p₁).trans (by rw [N.setLink_other_cellS])
  have q₂ : s₂.get q = some (N.cellS d B.ptr D.ptr p y) := (Mem.get_modify_of_ne hpq.symm).trans q₁
  have b₂ : B.ptr = 0 ∨ (s₂.get B.ptr).isSome := by
    by_cases hB : B = .nil
    · exact .inl (by rw [hB]; rfl)
    · rw [Mem.get_modify_of_ne hpB.symm, Mem.get_hook_of_ne (hBk hB).2]
      exact .inr (hBs.isSome_ptr.resolve_left hB)
  have p₃ : s₃.get p = some (N.cellS d A.ptr B.ptr (Ctx.par k) x) := (Mem.get_adopt_of_ne hpB).trans p₂
  have q₃ : s₃.get q = some (N.cellS d B.ptr D.ptr p y) := (Mem.get_adopt_of_ne hqB).trans q₂
  have p₄ : s₄.get p = some (N.cellS d A.ptr B.ptr (Ctx.par k) x) := (Mem.get_modify_of_ne hpq).trans p₃
  have q₄ : s₄.get q = some (N.cellS d p D.ptr p y) := (Mem.get_modify_eq _ q₃).trans (by rw [N.setLink_cellS])
  have p₅ : s₅.get p = some (N.cellS d A.ptr B.ptr (Ctx.par k) x) := (Mem.get_modify_of_ne hpq).trans p₄
  have q₅ : s₅.get q = some (N.cellS d p D.ptr (Ctx.par k) y) :=
    (Mem.get_modify_eq _ q₄).trans (by rw [N.setParent_cellS])
  have p₆ : s₆.get p = some (N.cellS d A.ptr B.ptr q x) :=
    (Mem.get_modify_eq _ p₅).trans (by rw [N.setParent_cellS])
  have q₆ : s₆.get q = some (N.cellS d p D.ptr (Ctx.par k) y) := (Mem.get_modify_of_ne hpq.symm).trans q₅
  have e₁ : (relinkParent (Ctx.par k) p q).run s = some ((), s₁) := run_relinkParent hooked
  have e₂ : (setChild d.other p B.ptr).run s₁ = some ((), s₂) := run_setChild N p₁
  have e₃ : (reparent B.ptr p).run s₂ = some ((), s₃) := run_reparent b₂
  have e₄ : (setChild d q p).run s₃ = some ((), s₄) := run_setChild N q₃
  have e₅ : (setParent q (Ctx.par k)).run s₄ = some ((), s₅) := by rw [run_setParent, q₄]; rfl
  have e₆ : (setParent p q).run s₅ = some ((), s₆) := by rw [run_setParent, p₅]; rfl
  have hrun : (ppTreeRbRotate d p).run s =
      some ((), if Ctx.par k = 0 then s₆.withRoot q else s₆) := by
    simp only [ppTreeRbRotate, StateT.run_bind, Option.bind_eq_bind, Option.bind_some, Option.map_some,
      run_child_other hp, run_parent, hp, N, parent_cellS, e₁, run_child q₁, e₂, run_child q₂, e₃, e₄, p₄,
        e₅, e₆, q₆]
    split <;> rfl
  have hr : Zip N.toLayout s₆.get (Ctx.root k q) k (.nodeS d q (.nodeS d p A x B) y D) :=
    h.rotate p₆ q₆ (fun hB => ?_) (fun f hf' => ?_) (fun b h1 h2 h3 h4 => ?_)
  · refine ⟨_, hrun, ?_, ?_⟩
    · have hroot := h.root_eq
      rw [AddrTree.ptr_nodeS] at hroot
      cases k with
      | nil => exact hr
      | cons f k =>
        rw [if_neg (show Ctx.par (f :: k) ≠ 0 from (hf f rfl).2.1)]
        show Zip N.toLayout s₆.get s₆.root _ _
        rwa [show s₆.root = s.root by simp [s₆, s₅, s₄, s₃, s₂, s₁], hroot]
    · split <;> simp [s₆, s₅, s₄, s₃, s₂, s₁]
  · obtain ⟨hB0, hBk⟩ := hBk hB
    simp [s₆, s₅, s₄, s₃, s₂, s₁, Mem.get_modify_of_ne, Mem.get_adopt_self hB0, Mem.get_hook_of_ne hBk,
      hpB.symm, hqB.symm, N]
  · obtain ⟨h1, h2, h3⟩ := hf f hf'
    have hp : f.a ≠ p := h1 ▸ hpk.symm
    have hq : f.a ≠ q := h1 ▸ hqk.symm
    simp [s₆, s₅, s₄, s₃, s₂, s₁, Mem.get_modify_of_ne, Mem.get_adopt_of_ne, hp, hq, h3,
      Mem.get_hook_head f hf', N]
  · simp [s₆, s₅, s₄, s₃, s₂, s₁, Mem.get_modify_of_ne, Mem.get_adopt_of_ne, Mem.get_hook_of_ne, h1, h2, h3, h4]

/-! ## The AVL tree -/

theorem ppTreeAvlRotate_spec {s : Mem (ParentExt pint) ω} {d : Side} {p q : ppointer}
    {A B D : AddrTree (Item pint)} {x y : Item pint} {k : Ctx (Item pint)}
    (h : Holds (parentLayout _) s k (.nodeS d p A x (.nodeS d q B y D))) :
    ∃ s', (ppTreeAvlRotate d q).run s = some ((), s') ∧
      Holds (parentLayout _) s' k (.nodeS d q (.nodeS d p A (x.withTag (-(y.tag + sideBalance d))) B)
        (y.withTag (y.tag + sideBalance d)) D) ∧ s'.world = s.world := by
  obtain ⟨hpq, hpB, hqB, hpk, hqk, hBk, hf⟩ := h.far_apart
  have hooked := h.hooked (AddrTree.nodeS_ne_nil d p A _ x)
  have hroot := h.root_eq
  obtain ⟨hp, -, hqs⟩ := rep_nodeS.1 h.sub
  obtain ⟨hq, hBs, -⟩ := rep_nodeS.1 hqs
  rw [AddrTree.ptr_nodeS] at hp hooked hroot
  let N := parentLayout pint
  let s₁ := s.modify p (N.setLink d.other B.ptr)
  let s₂ := s₁.adopt B.ptr p
  let s₃ := s₂.modify q (N.setLink d p)
  let s₄ := s₃.modify q (N.setParent (Ctx.par k))
  let s₅ := s₄.modify p (N.setParent q)
  let s₆ := s₅.hookRoot N k q
  have p₁ : s₁.get p = some (N.cellS d A.ptr B.ptr (Ctx.par k) x) :=
    (Mem.get_modify_eq _ hp).trans (by rw [N.setLink_other_cellS])
  have q₁ : s₁.get q = some (N.cellS d B.ptr D.ptr p y) := (Mem.get_modify_of_ne hpq.symm).trans hq
  have b₁ : B.ptr = 0 ∨ (s₁.get B.ptr).isSome := by
    rw [Mem.get_modify_of_ne hpB.symm]
    exact hBs.isSome_ptr.imp_left (by rintro rfl; rfl)
  have p₂ : s₂.get p = some (N.cellS d A.ptr B.ptr (Ctx.par k) x) := (Mem.get_adopt_of_ne hpB).trans p₁
  have q₂ : s₂.get q = some (N.cellS d B.ptr D.ptr p y) := (Mem.get_adopt_of_ne hqB).trans q₁
  have p₃ : s₃.get p = some (N.cellS d A.ptr B.ptr (Ctx.par k) x) := (Mem.get_modify_of_ne hpq).trans p₂
  have q₃ : s₃.get q = some (N.cellS d p D.ptr p y) :=
    (Mem.get_modify_eq _ q₂).trans (by rw [N.setLink_cellS])
  have p₄ : s₄.get p = some (N.cellS d A.ptr B.ptr (Ctx.par k) x) := (Mem.get_modify_of_ne hpq).trans p₃
  have q₄ : s₄.get q = some (N.cellS d p D.ptr (Ctx.par k) y) :=
    (Mem.get_modify_eq _ q₃).trans (by rw [N.setParent_cellS])
  have p₅ : s₅.get p = some (N.cellS d A.ptr B.ptr q x) :=
    (Mem.get_modify_eq _ p₄).trans (by rw [N.setParent_cellS])
  have q₅ : s₅.get q = some (N.cellS d p D.ptr (Ctx.par k) y) :=
    (Mem.get_modify_of_ne hpq.symm).trans q₄
  have f₅ : ∀ f ∈ k.head?, s₅.get f.a = s.get f.a := by
    intro f hf'
    obtain ⟨h1, h2, h3⟩ := hf f hf'
    have hp : f.a ≠ p := h1 ▸ hpk.symm
    have hq : f.a ≠ q := h1 ▸ hqk.symm
    simp [s₅, s₄, s₃, s₂, s₁, Mem.get_modify_of_ne, Mem.get_adopt_of_ne, hp, hq, h3]
  have p₆ : s₆.get p = some (N.cellS d A.ptr B.ptr q x) :=
    (Mem.get_hookRoot.trans (Mem.get_hook_of_ne hpk)).trans p₅
  have q₆ : s₆.get q = some (N.cellS d p D.ptr (Ctx.par k) y) :=
    (Mem.get_hookRoot.trans (Mem.get_hook_of_ne hqk)).trans q₅
  have e₁ : (setChild d.other p B.ptr).run s = some ((), s₁) := run_setChild N hp
  have e₂ : (reparent B.ptr p).run s₁ = some ((), s₂) := run_reparent b₁
  have e₃ : (setChild d q p).run s₂ = some ((), s₃) := run_setChild N q₂
  have e₄ : (setParent q (Ctx.par k)).run s₃ = some ((), s₄) := by rw [run_setParent, q₃]; rfl
  have e₅ : (setParent p q).run s₄ = some ((), s₅) := by rw [run_setParent, p₄]; rfl
  have e₆ : (relinkOrRoot (Ctx.par k) p q).run s₅ = some ((), s₆) := run_relinkOrRoot (hooked.congr f₅)
  have hz : Zip N.toLayout s₆.get (Ctx.root k q) k (.nodeS d q (.nodeS d p A x B) y D) :=
    h.rotate p₆ q₆ (fun hB => ?_) (fun f hf' => ?_) (fun b h1 h2 h3 h4 => ?_)
  · have h₆ : Holds N s₆ k (.nodeS d q (.nodeS d p A x B) y D) := by
      rwa [← Mem.root_hookRoot (show s₅.root = Ctx.root k p by simpa [s₅, s₄, s₃, s₂, s₁] using hroot)] at hz
    obtain ⟨s₇, e₇, h₇, w₇⟩ := h₆.run_setTagS (y.tag + sideBalance d)
    obtain ⟨s₈, e₈, h₈, w₈⟩ := h₇.down.run_setTagS (-(y.tag + sideBalance d))
    refine ⟨s₈, ?_, zip_cons.1 h₈, ?_⟩
    · simp only [ppTreeAvlRotate, StateT.run_bind, Option.bind_eq_bind, Option.bind_some, Option.map_some,
        run_parent, run_tag, N, hq, parent_cellS, tag_cellS, run_child hq, e₁, q₁, run_child q₁, e₂, q₂, e₃,
          run_child q₃,
        p₃, e₄, run_child q₄, e₅, q₅, run_child q₅, e₆, q₆, e₇, h₇.getS, run_child h₇.getS, AddrTree.ptr_nodeS,
        Item.tag_withTag, e₈]
    · rw [w₈, w₇]
      simp [s₆, s₅, s₄, s₃, s₂, s₁]
  · obtain ⟨hB0, hBk⟩ := hBk hB
    simp [s₆, s₅, s₄, s₃, s₂, s₁, Mem.get_hookRoot, Mem.get_modify_of_ne, Mem.get_adopt_self hB0,
      Mem.get_hook_of_ne hBk, hpB.symm, hqB.symm, N]
  · rw [Mem.get_hookRoot, Mem.get_hook_head f hf', f₅ f hf']
  · simp [s₆, s₅, s₄, s₃, s₂, s₁, Mem.get_hookRoot, Mem.get_modify_of_ne, Mem.get_adopt_of_ne,
      Mem.get_hook_of_ne, h1, h2, h3, h4]

/-- The balance factor that a double rotation leaves at the child on the side `d` of a node
    that had the balance factor `b`. -/
def restoredBalance (b : pint) : Side → pint
  | .left => if b = -1 then 1 else 0
  | .right => if b = 1 then -1 else 0

theorem ppTreeAvlRestoreBalance2_spec {s : Mem (ParentExt pint) ω} {p q r : ppointer}
    {A B D E : AddrTree (Item pint)} {x y z : Item pint} {k : Ctx (Item pint)}
    (h : Holds (parentLayout _) s k (.node r (.node p A x B) z (.node q D y E))) :
    ∃ s', (ppTreeAvlRestoreBalance2 r).run s = some ((), s') ∧
      Holds (parentLayout _) s' k (.node r (.node p A (x.withTag (restoredBalance z.tag .left)) B)
        (z.withTag 0) (.node q D (y.withTag (restoredBalance z.tag .right)) E)) ∧
      s'.world = s.world := by
  obtain ⟨s₁, e₁, h₁, w₁⟩ := h.left.run_setTag (restoredBalance z.tag .left)
  have hr₁ := h₁.up
  obtain ⟨s₂, e₂, h₂, w₂⟩ := (Holds.right hr₁).run_setTag (restoredBalance z.tag .right)
  have hr₂ := h₂.up
  obtain ⟨s₃, e₃, h₃, w₃⟩ := Holds.run_setTag hr₂ 0
  refine ⟨s₃, ?_, h₃, w₃.trans (w₂.trans w₁)⟩
  have hg := h.get
  have hg₁ := Holds.get hr₁
  have hg₂ := Holds.get hr₂
  simp only [AddrTree.ptr_node] at hg hg₁ hg₂
  simp only [restoredBalance] at e₁ e₂
  by_cases h1 : z.tag = 1
  · simp [h1] at e₁ e₂
    simp [ppTreeAvlRestoreBalance2, run_tag, hg, hg₁, h1, e₁, e₂, e₃]
  · by_cases h2 : z.tag = -1
    · simp [h2] at e₁ e₂
      simp [ppTreeAvlRestoreBalance2, run_tag, hg, hg₁, h2, e₁, e₂, e₃]
    · simp [h1, h2] at e₁ e₂
      simp [ppTreeAvlRestoreBalance2, run_tag, hg, hg₁, h1, h2, e₁, e₂, e₃]

/-- What the three nodes of a double rotation hold. -/
structure ThreeNodes (s : Mem (ParentExt pint) ω) (p q r : ppointer) (P Q R : PTreeAVLNode) : Prop where
  fst : s.get p = some P
  snd : s.get q = some Q
  trd : s.get r = some R

namespace ThreeNodes

variable {s s' : Mem (ParentExt pint) ω} {p q r b : ppointer} {P Q R P' Q' R' : PTreeAVLNode}
  {f : PTreeAVLNode → PTreeAVLNode}

theorem modify_fst (h : ThreeNodes s p q r P Q R) (hpq : p ≠ q) (hpr : p ≠ r) (hP : f P = P') :
    ThreeNodes (s.modify p f) p q r P' Q R :=
  ⟨hP ▸ Mem.get_modify_eq f h.fst, (Mem.get_modify_of_ne hpq.symm).trans h.snd,
    (Mem.get_modify_of_ne hpr.symm).trans h.trd⟩

theorem modify_snd (h : ThreeNodes s p q r P Q R) (hpq : p ≠ q) (hqr : q ≠ r) (hQ : f Q = Q') :
    ThreeNodes (s.modify q f) p q r P Q' R :=
  ⟨(Mem.get_modify_of_ne hpq).trans h.fst, hQ ▸ Mem.get_modify_eq f h.snd,
    (Mem.get_modify_of_ne hqr.symm).trans h.trd⟩

theorem modify_trd (h : ThreeNodes s p q r P Q R) (hpr : p ≠ r) (hqr : q ≠ r) (hR : f R = R') :
    ThreeNodes (s.modify r f) p q r P Q R' :=
  ⟨(Mem.get_modify_of_ne hpr).trans h.fst, (Mem.get_modify_of_ne hqr).trans h.snd,
    hR ▸ Mem.get_modify_eq f h.trd⟩

theorem adopt (h : ThreeNodes s p q r P Q R) (hb : p ≠ b ∧ q ≠ b ∧ r ≠ b) (c : ppointer) :
    ThreeNodes (s.adopt b c) p q r P Q R :=
  ⟨(Mem.get_adopt_of_ne hb.1).trans h.fst, (Mem.get_adopt_of_ne hb.2.1).trans h.snd,
    (Mem.get_adopt_of_ne hb.2.2).trans h.trd⟩

theorem hookRoot {k : Ctx (Item pint)} (h : ThreeNodes s p q r P Q R)
    (hk : p ≠ Ctx.par k ∧ q ≠ Ctx.par k ∧ r ≠ Ctx.par k) (c : ppointer) :
    ThreeNodes (s.hookRoot (parentLayout pint) k c) p q r P Q R :=
  ⟨(Mem.get_hookRoot.trans (Mem.get_hook_of_ne hk.1)).trans h.fst,
    (Mem.get_hookRoot.trans (Mem.get_hook_of_ne hk.2.1)).trans h.snd,
    (Mem.get_hookRoot.trans (Mem.get_hook_of_ne hk.2.2)).trans h.trd⟩

end ThreeNodes

theorem ppTreeAvlRotate2_spec {s : Mem (ParentExt pint) ω} {d : Side} {p q r : ppointer}
    {A B D E : AddrTree (Item pint)} {x y z : Item pint} {k : Ctx (Item pint)}
    (h : Holds (parentLayout _) s k (.nodeS d p (.nodeS d q A y (.nodeS d r B z D)) x E)) :
    ∃ s', (ppTreeAvlRotate2 d q).run s = some ((), s') ∧
      Holds (parentLayout _) s' k (.nodeS d r (.nodeS d q A (y.withTag (restoredBalance z.tag d)) B)
        (z.withTag 0) (.nodeS d p D (x.withTag (restoredBalance z.tag d.other)) E)) ∧
      s'.world = s.world := by
  obtain ⟨⟨hpq, hpr, hqr⟩, hB, hD, hk, hBk, hDk, hf⟩ := h.near_far_apart
  have hooked := h.hooked (AddrTree.nodeS_ne_nil d p _ E x)
  have hroot := h.root_eq
  obtain ⟨hp, hqs, -⟩ := rep_nodeS.1 h.sub
  obtain ⟨hq, -, hrs⟩ := rep_nodeS.1 hqs
  obtain ⟨hr, hBs, hDs⟩ := rep_nodeS.1 hrs
  rw [AddrTree.ptr_nodeS] at hp hq hooked hroot
  let N := parentLayout pint
  let s₁ := s.modify q (N.setLink d.other B.ptr)
  let s₂ := s₁.adopt B.ptr q
  let s₃ := s₂.modify r (N.setParent (Ctx.par k))
  let s₄ := s₃.hookRoot N k r
  let s₅ := s₄.modify p (N.setLink d D.ptr)
  let s₆ := s₅.adopt D.ptr p
  let s₇ := s₆.modify r (N.setLink d.other p)
  let s₈ := s₇.modify p (N.setParent r)
  let s₉ := s₈.modify r (N.setLink d q)
  let s₁₀ := s₉.modify q (N.setParent r)
  have c₀ : ThreeNodes s p q r (N.cellS d q E.ptr (Ctx.par k) x) (N.cellS d A.ptr r p y)
      (N.cellS d B.ptr D.ptr q z) := ⟨hp, hq, hr⟩
  have c₁ : ThreeNodes s₁ p q r _ _ _ := c₀.modify_snd hpq hqr (N.setLink_other_cellS d A.ptr r p B.ptr y)
  have c₂ : ThreeNodes s₂ p q r _ _ _ := c₁.adopt hB q
  have c₃ : ThreeNodes s₃ p q r _ _ _ := c₂.modify_trd hpr hqr (N.setParent_cellS d B.ptr D.ptr q (Ctx.par k) z)
  have c₄ : ThreeNodes s₄ p q r _ _ _ := c₃.hookRoot hk r
  have c₅ : ThreeNodes s₅ p q r _ _ _ := c₄.modify_fst hpq hpr (N.setLink_cellS d q D.ptr E.ptr (Ctx.par k) x)
  have c₆ : ThreeNodes s₆ p q r _ _ _ := c₅.adopt hD p
  have c₇ : ThreeNodes s₇ p q r _ _ _ :=
    c₆.modify_trd hpr hqr (N.setLink_other_cellS d B.ptr D.ptr (Ctx.par k) p z)
  have c₈ : ThreeNodes s₈ p q r _ _ _ := c₇.modify_fst hpq hpr (N.setParent_cellS d D.ptr E.ptr (Ctx.par k) r x)
  have c₉ : ThreeNodes s₉ p q r _ _ _ := c₈.modify_trd hpr hqr (N.setLink_cellS d B.ptr q p (Ctx.par k) z)
  have c₁₀ : ThreeNodes s₁₀ p q r _ _ _ := c₉.modify_snd hpq hqr (N.setParent_cellS d A.ptr B.ptr p r y)
  have f₀ : ∀ f ∈ k.head?, f.a ≠ p ∧ f.a ≠ q ∧ f.a ≠ r := by
    intro f hf'
    rw [(hf f hf').1]
    exact ⟨hk.1.symm, hk.2.1.symm, hk.2.2.symm⟩
  have f₃ : ∀ f ∈ k.head?, s₃.get f.a = s.get f.a := by
    intro f hf'
    obtain ⟨-, -, h3, -⟩ := hf f hf'
    obtain ⟨-, h5, h6⟩ := f₀ f hf'
    simp [s₃, s₂, s₁, Mem.get_modify_of_ne, Mem.get_adopt_of_ne, h3, h5, h6]
  have b₁ : B.ptr = 0 ∨ (s₁.get B.ptr).isSome := by
    rw [Mem.get_modify_of_ne hB.2.1.symm]
    exact hBs.isSome_ptr.imp_left (by rintro rfl; rfl)
  have d₅ : D.ptr = 0 ∨ (s₅.get D.ptr).isSome := by
    by_cases hD' : D = .nil
    · exact .inl (by rw [hD']; rfl)
    · obtain ⟨hD0, hDk, hDB⟩ := hDk hD'
      refine .inr ?_
      have := hDs.isSome_ptr.resolve_left hD'
      simpa [s₅, s₄, s₃, s₂, s₁, Mem.get_hookRoot, Mem.get_modify_of_ne, Mem.get_hook_of_ne hDk, hD.1.symm,
        hD.2.1.symm, hD.2.2.symm, hDB, Mem.get_adopt_of_ne] using this
  have e₁ : (setChild d.other q B.ptr).run s = some ((), s₁) := run_setChild N hq
  have e₂ : (reparent B.ptr q).run s₁ = some ((), s₂) := run_reparent b₁
  have e₃ : (setParent r (Ctx.par k)).run s₂ = some ((), s₃) := by rw [run_setParent, c₂.trd]; rfl
  have e₄ : (relinkOrRoot (Ctx.par k) p r).run s₃ = some ((), s₄) := run_relinkOrRoot (hooked.congr f₃)
  have e₅ : (setChild d p D.ptr).run s₄ = some ((), s₅) := run_setChild N c₄.fst
  have e₆ : (reparent D.ptr p).run s₅ = some ((), s₆) := run_reparent d₅
  have e₇ : (setChild d.other r p).run s₆ = some ((), s₇) := run_setChild N c₆.trd
  have e₈ : (setParent p r).run s₇ = some ((), s₈) := by rw [run_setParent, c₇.fst]; rfl
  have e₉ : (setChild d r q).run s₈ = some ((), s₉) := run_setChild N c₈.trd
  have e₁₀ : (setParent q r).run s₉ = some ((), s₁₀) := by rw [run_setParent, c₉.snd]; rfl
  have hz : Zip N.toLayout s₁₀.get (Ctx.root k r) k (.nodeS d r (.nodeS d q A y B) z (.nodeS d p D x E)) :=
    h.rotate₂ c₁₀.fst c₁₀.snd c₁₀.trd (fun hB' => ?_) (fun hD' => ?_) (fun f hf' => ?_)
      (fun b h1 h2 h3 h4 h5 h6 => ?_)
  · have h₁₀ : Holds N s₁₀ k (.nodeS d r (.nodeS d q A y B) z (.nodeS d p D x E)) := by
      rw [← Mem.root_hookRoot (show s₃.root = Ctx.root k p by simpa [s₃, s₂, s₁] using hroot)] at hz
      show Zip N.toLayout s₁₀.get s₁₀.root k _
      rwa [show s₁₀.root = (s₃.hookRoot N k r).root by simp [s₁₀, s₉, s₈, s₇, s₆, s₅, s₄]]
    obtain ⟨s', e', h', w'⟩ : ∃ s', (ppTreeAvlRestoreBalance2 r).run s₁₀ = some ((), s') ∧
        Holds N s' k (.nodeS d r (.nodeS d q A (y.withTag (restoredBalance z.tag d)) B)
          (z.withTag 0) (.nodeS d p D (x.withTag (restoredBalance z.tag d.other)) E)) ∧
        s'.world = s₁₀.world := by
      cases d <;> exact ppTreeAvlRestoreBalance2_spec h₁₀
    refine ⟨s', ?_, h', w'.trans (by simp [s₁₀, s₉, s₈, s₇, s₆, s₅, s₄, s₃, s₂, s₁])⟩
    simp only [ppTreeAvlRotate2, StateT.run_bind, Option.bind_eq_bind, Option.bind_some, Option.map_some,
      run_parent, run_child_other hq, run_child hr, e₁, run_child_other c₁.snd, e₂, c₂.snd, c₂.fst, N,
      parent_cellS, e₃, c₃.trd, c₃.snd, e₄, c₄.snd, run_child_other c₄.trd, e₅, c₅.snd, run_child c₅.fst, e₆,
      c₆.snd, e₇, run_child_other c₇.trd, e₈, e₉, e₁₀, e']
  · obtain ⟨hB0, hBk, hBD⟩ := hBk hB'
    simp [s₁₀, s₉, s₈, s₇, s₆, s₅, s₄, s₃, s₂, s₁, Mem.get_hookRoot, Mem.get_modify_of_ne, Mem.get_adopt_self hB0,
      Mem.get_hook_of_ne hBk, hB.1.symm, hB.2.1.symm, hB.2.2.symm, hBD, Mem.get_adopt_of_ne, N]
  · obtain ⟨hD0, hDk, hDB⟩ := hDk hD'
    simp [s₁₀, s₉, s₈, s₇, s₆, s₅, s₄, s₃, s₂, s₁, Mem.get_hookRoot, Mem.get_modify_of_ne, Mem.get_adopt_self hD0,
      Mem.get_hook_of_ne hDk, hD.1.symm, hD.2.1.symm, hD.2.2.symm, hDB, Mem.get_adopt_of_ne, N]
  · obtain ⟨-, -, -, h4⟩ := hf f hf'
    obtain ⟨h5, h6, h7⟩ := f₀ f hf'
    rw [← f₃ f hf', ← Mem.get_hook_head (N := N) f hf', ← Mem.get_hookRoot]
    simp [s₁₀, s₉, s₈, s₇, s₆, s₅, s₄, Mem.get_modify_of_ne, Mem.get_adopt_of_ne, h4, h5, h6, h7]
  · simp [s₁₀, s₉, s₈, s₇, s₆, s₅, s₄, s₃, s₂, s₁, Mem.get_hookRoot, Mem.get_modify_of_ne, Mem.get_adopt_of_ne,
      Mem.get_hook_of_ne, h1, h2, h3, h4, h5, h6]

end Plibsys
