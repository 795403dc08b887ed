/-
  The frame rule: a program that runs on a memory without a node at `b` does the same on the
  memory with any node there, and leaves that node alone.

  `Local m` is inferred from the text of `m` by instances for its parts.
-/
import Plibsys.Tree.Change

namespace Plibsys

open Looping Linked

variable {E τ ω α β γ : Type}

class Local (m : TreeM E ω α) : Prop where
  frame : ∀ {s s' : Mem E ω} {x : α} {b : ppointer} (n : PTreeBaseNode E), s.get b = none →
    m.run s = some (x, s') → s'.get b = none ∧ m.run (s.store b (some n)) = some (x, s'.store b (some n))

namespace Local

variable {m m' : TreeM E ω α} {f : α → TreeM E ω β}

instance (x : α) : Local (pure x : TreeM E ω α) where
  frame n hb hrun := by
    cases hrun
    exact ⟨hb, rfl⟩

instance [hm : Local m] [hf : ∀ x, Local (f x)] : Local (m >>= f) where
  frame := by
    intro s s' y b n hb hrun
    simp only [StateT.run_bind, Option.bind_eq_bind, Option.bind_eq_some_iff] at hrun ⊢
    obtain ⟨⟨x, s₁⟩, hrun₁, hrun₂⟩ := hrun
    obtain ⟨hb₁, hrun₁'⟩ := hm.frame n hb hrun₁
    obtain ⟨hb₂, hrun₂'⟩ := (hf x).frame n hb₁ hrun₂
    exact ⟨hb₂, _, hrun₁', hrun₂'⟩

instance {p : Prop} [Decidable p] [Local m] [Local m'] : Local (if p then m else m') := by
  split <;> assumption

instance loop {body : β → TreeM E ω (Iter β γ)} [hb : ∀ x, Local (body x)] (n : ℕ) (x : β) :
    Local (Looping.loop body n x) where
  frame := by
    intro s s' y b v hbs hrun
    induction n generalizing x s with
    | zero => cases hrun
    | succ n ih =>
      simp only [Looping.loop, StateT.run_bind, Option.bind_eq_bind, Option.bind_eq_some_iff] at hrun ⊢
      obtain ⟨⟨r, s₁⟩, hrun₁, hrun₂⟩ := hrun
      obtain ⟨hb₁, hrun₁'⟩ := (hb x).frame v hbs hrun₁
      cases r with
      | next x' =>
        obtain ⟨hb₂, hrun₂'⟩ := ih x' hb₁ hrun₂
        exact ⟨hb₂, _, hrun₁', hrun₂'⟩
      | done y' =>
        cases hrun₂
        exact ⟨hb₁, _, hrun₁', rfl⟩

end Local

/-! ## The memory accesses -/

section
variable (p q : ppointer) (d : Side) (s : Mem E ω) {b : ppointer} {n : Option (PTreeBaseNode E)}

theorem Mem.store_modify_comm (f : PTreeBaseNode E → PTreeBaseNode E) (h : p ≠ b) :
    (s.store b n).modify p f = (s.modify p f).store b n := by
  simp only [modify, store, Function.update_of_ne h]
  rw [Function.update_comm h]

theorem Mem.get_store_of_ne (h : p ≠ b) : (s.store b n).get p = s.get p := by
  rw [Mem.get_store, if_neg fun hc => h hc.1]

theorem Mem.ne_of_get {n : PTreeBaseNode E} (hb : s.get b = none) (hp : s.get p = some n) : p ≠ b := by
  rintro rfl
  simp [hb] at hp

instance : Local (deref p : TreeM E ω _) where
  frame := by
    intro s s' x b n hb hrun
    simp only [run_deref, Option.map_eq_some_iff, Prod.mk.injEq] at hrun ⊢
    obtain ⟨v, hv, rfl, rfl⟩ := hrun
    exact ⟨hb, v, by rw [Mem.get_store_of_ne _ _ (s.ne_of_get p hb hv), hv], rfl, rfl⟩

instance (f : PTreeBaseNode E → PTreeBaseNode E) : Local (assign p f : TreeM E ω _) where
  frame := by
    intro s s' x b n hb hrun
    simp only [run_assign, Option.map_eq_some_iff, Prod.mk.injEq, true_and] at hrun ⊢
    obtain ⟨v, hv, rfl⟩ := hrun
    have hne := s.ne_of_get p hb hv
    refine ⟨by rw [Mem.get_modify_of_ne hne.symm, hb], v, ?_, s.store_modify_comm p f hne⟩
    rw [Mem.get_store_of_ne _ _ hne, hv]

instance : Local (getRoot : TreeM E ω _) where
  frame := by
    intro s s' x b n hb hrun
    cases hrun
    exact ⟨hb, rfl⟩

instance : Local (setRoot p : TreeM E ω _) where
  frame := by
    intro s s' x b n hb hrun
    cases hrun
    exact ⟨hb, rfl⟩

instance : Local (left p : TreeM E ω _) := by unfold left; infer_instance
instance : Local (right p : TreeM E ω _) := by unfold right; infer_instance
instance : Local (setLeft p q : TreeM E ω _) := by unfold setLeft; infer_instance
instance : Local (setRight p q : TreeM E ω _) := by unfold setRight; infer_instance
instance : Local (child d p : TreeM E ω _) := by cases d <;> (unfold child; infer_instance)
instance : Local (setChild d p q : TreeM E ω _) := by cases d <;> (unfold setChild; infer_instance)
instance (r : ppointer) : Local (relink p q r : TreeM E ω _) := by unfold relink; infer_instance
instance (r : ppointer) : Local (relinkOrRoot p q r : TreeM E ω _) := by unfold relinkOrRoot; infer_instance
instance : Local (parent p : TreeM (ParentExt τ) ω _) := by unfold parent; infer_instance
instance : Local (tag p : TreeM (ParentExt τ) ω _) := by unfold tag; infer_instance
instance (v : τ) : Local (setTag p v : TreeM (ParentExt τ) ω _) := by unfold setTag; infer_instance
instance : Local (setParent p q : TreeM (ParentExt τ) ω _) := by unfold setParent; infer_instance
instance : Local (reparent p q : TreeM (ParentExt τ) ω _) := by unfold reparent; infer_instance

instance (l : Link) : Local (readLink l : TreeM E ω _) := by cases l <;> (unfold readLink; infer_instance)
instance (l : Link) : Local (writeLink q l : TreeM E ω _) := by cases l <;> (unfold writeLink; infer_instance)

instance (func : Option (PDestroyFunc ω)) : Local (destroy func p : TreeM E ω _) where
  frame := by
    intro s s' x b n hb hrun
    rw [run_destroy] at hrun ⊢
    cases hrun
    exact ⟨hb, rfl⟩

instance (kd vd : Option (PDestroyFunc ω)) (key value : ppointer) :
    Local (replacePair key kd vd value p : TreeM E ω _) := by
  unfold replacePair setKeyValue; infer_instance

instance (fuel : ℕ) (compare_func : PCompareDataFunc) (key : ppointer) :
    Local (findLink fuel compare_func key : TreeM E ω _) := by
  unfold findLink findLinkStep; infer_instance

end

/-! ## The balancing of a removal from an AVL tree -/

section
variable (node par : ppointer) (d : Side)

set_option synthInstance.maxSize 20000

instance : Local (ppTreeAvlRotate d node : AvlM ω Unit) := by unfold ppTreeAvlRotate; infer_instance

instance : Local (ppTreeAvlRestoreBalance2 node : AvlM ω Unit) := by
  unfold ppTreeAvlRestoreBalance2; dsimp only; infer_instance

instance : Local (ppTreeAvlRotate2 d node : AvlM ω Unit) := by unfold ppTreeAvlRotate2; infer_instance

instance : Local (ppTreeAvlBalanceRemoveSide d node par : AvlM ω _) := by
  unfold ppTreeAvlBalanceRemoveSide; dsimp only; infer_instance

instance : Local (ppTreeAvlBalanceRemoveStep node : AvlM ω _) := by
  unfold ppTreeAvlBalanceRemoveStep; infer_instance

instance (fuel : ℕ) : Local (ppTreeAvlBalanceRemove fuel node : AvlM ω Unit) := by
  unfold ppTreeAvlBalanceRemove; infer_instance

end

/-! ## A node outside of the tree -/

theorem Mem.store_none_some {s : Mem E ω} {b : ppointer} {n : PTreeBaseNode E} (hb : s.get b = some n) :
    (s.store b none).store b (some n) = s := by
  have h0 : s.cell b = some n := by
    unfold get at hb
    split at hb
    · cases hb
    · exact hb
  simp only [store, Function.update_idem]
  rw [← h0, Function.update_eq_self]

theorem Holds.not_mem {τ : Type} {N : NodeLayout E τ} {s : Mem E ω} {k : Ctx (Item τ)} {t : AddrTree (Item τ)}
    {b : ppointer} (h : Holds N s k t) (hb : s.get b = none) : b ∉ t.addrs ∧ b ∉ Ctx.addrs k := by
  constructor
  · intro hmem
    have := h.sub.isSome hmem
    simp [hb] at this
  · intro hmem
    have := h.ctx.isSome hmem
    simp [hb] at this

theorem Holds.store {τ : Type} {N : NodeLayout E τ} {s : Mem E ω} {k : Ctx (Item τ)} {t : AddrTree (Item τ)}
    {b : ppointer} (h : Holds N s k t) (n : Option (PTreeBaseNode E)) (hb : b ∉ t.addrs ∧ b ∉ Ctx.addrs k) :
    Holds N (s.store b n) k t := by
  refine Zip.congr h fun c hc => ?_
  rw [Mem.get_store, if_neg]
  rintro ⟨rfl, -⟩
  exact hc.elim hb.1 hb.2

/-- **Frame rule.**  A program that keeps a tree in memory also keeps a node outside of it. -/
theorem Holds.frame {τ : Type} {N : NodeLayout E τ} {s : Mem E ω} {k : Ctx (Item τ)} {t : AddrTree (Item τ)}
    {b : ppointer} {n : PTreeBaseNode E} (m : TreeM E ω α) [hm : Local m] (h : Holds N s k t)
    (hb : s.get b = some n) (hbt : b ∉ t.addrs ∧ b ∉ Ctx.addrs k)
    (P : α → Ctx (Item τ) → AddrTree (Item τ) → ω → Prop)
    (hspec : ∀ s₀ : Mem E ω, Holds N s₀ k t → s₀.world = s.world →
      ∃ x s' k' t', m.run s₀ = some (x, s') ∧ Holds N s' k' t' ∧ P x k' t' s'.world) :
    ∃ x s' k' t', m.run s = some (x, s') ∧ Holds N s' k' t' ∧ P x k' t' s'.world ∧ s'.get b = some n ∧
      b ∉ t'.addrs ∧ b ∉ Ctx.addrs k' := by
  obtain ⟨x, s', k', t', hrun, h', hP⟩ := hspec (s.store b none) (h.store none hbt) rfl
  have hb0 : b ≠ 0 := by rintro rfl; simp [Mem.get] at hb
  have hnone : (s.store b none).get b = none := by rw [Mem.get_store, if_pos ⟨rfl, hb0⟩]
  obtain ⟨hb', hrun'⟩ := hm.frame n hnone hrun
  rw [Mem.store_none_some hb] at hrun'
  have hnot := h'.not_mem hb'
  exact ⟨x, _, k', t', hrun', h'.store _ hnot, hP, by rw [Mem.get_store, if_pos ⟨rfl, hb0⟩], hnot.1, hnot.2⟩

end Plibsys
