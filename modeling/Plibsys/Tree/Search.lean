/-
  The searches on a memory that holds a tree: each one ends, without reading through
  `NULL`, at the place that `AddrTree.search` or `AddrTree.rightmost` names.
-/
import Plibsys.Tree.Layout
import Plibsys.Tree.PTree

namespace Plibsys

open Looping Linked

variable {E τ ω : Type} {N : NodeLayout E τ} {s : Mem E ω} {k : Ctx (Item τ)} {t l r : AddrTree (Item τ)}
  {x : Item τ} {a n : ℕ} {d : Side}

/-! ## Reading at the focus -/

namespace Holds

theorem get (h : Holds N s k (.node a l x r)) : s.get a = some (N.cell l.ptr r.ptr (Ctx.par k) x) :=
  h.cell_eq

theorem getS (h : Holds N s k (.nodeS d a l x r)) :
    s.get a = some (N.cellS d l.ptr r.ptr (Ctx.par k) x) := (rep_nodeS.1 h.sub).1

theorem ne_null (h : Holds N s k t) (ht : t ≠ .nil) : t.ptr ≠ NULL := by
  intro h0
  have := (List.nodup_cons.1 h.nodup).1
  rw [← show t.ptr = 0 from h0] at this
  exact this (List.mem_append_left _ (AddrTree.ptr_mem ht))

theorem ptr_eq_null (h : Holds N s k t) : t.ptr = NULL ↔ t = .nil := by
  constructor
  · intro h0
    by_contra ht
    exact h.ne_null ht h0
  · rintro rfl
    rfl

theorem up {f : Frame (Item τ)} (h : Holds N s (f :: k) t) : Holds N s k (f.plug t) := zip_cons.1 h

theorem down (h : Holds N s k (.nodeS d a l x r)) : Holds N s (⟨d, a, x, r⟩ :: k) l := zip_cons.2 h

theorem left (h : Holds N s k (.node a l x r)) : Holds N s (⟨.left, a, x, r⟩ :: k) l := zip_cons.2 h

theorem right (h : Holds N s k (.node a l x r)) : Holds N s (⟨.right, a, x, l⟩ :: k) r := zip_cons.2 h

/-- To the far child. -/
theorem far (h : Holds N s k (.nodeS d a l x r)) : Holds N s (⟨d.other, a, x, l⟩ :: k) r :=
  Zip.refocus h (by simp [Ctx.plug, Frame.plug, AddrTree.nodeS_other])

theorem unfar (h : Holds N s (⟨d.other, a, x, l⟩ :: k) r) : Holds N s k (.nodeS d a l x r) :=
  Zip.refocus h (by simp [Ctx.plug, Frame.plug, AddrTree.nodeS_other])

end Holds

/-! ## Reading around the focus -/

section
variable {s : Mem (ParentExt τ) ω} {f : Frame (Item τ)}

theorem Holds.run_parent_ptr (h : Holds (parentLayout τ) s k t) (ht : t ≠ .nil) :
    (parent t.ptr).run s = some (Ctx.par k, s) := by
  cases t with
  | nil => exact absurd rfl ht
  | node a l x r => rw [run_parent, AddrTree.ptr_node, h.get]; rfl

theorem Holds.run_tagS (h : Holds (parentLayout τ) s k (.nodeS d a l x r)) :
    (tag a).run s = some (x.tag, s) := by
  rw [run_tag, h.getS, Option.map_some, tag_cellS]

theorem Holds.sib_ne {N : NodeLayout (ParentExt τ) τ} (h : Holds N s (f :: k) t) (ht : t ≠ .nil) :
    f.sib.ptr ≠ t.ptr := (h.hooked ht f rfl).2.1

/-- The left link of the parent: it leads to the focus if that is the left child. -/
theorem Holds.run_left_par (h : Holds (parentLayout τ) s (f :: k) t) :
    (Plibsys.left f.a).run s = some (match f.side with | .left => t.ptr | .right => f.sib.ptr, s) := by
  have := h.ctx.1
  rw [run_left, this]
  cases f.side <;> rfl

theorem Holds.run_right_par (h : Holds (parentLayout τ) s (f :: k) t) :
    (Plibsys.right f.a).run s = some (match f.side with | .left => f.sib.ptr | .right => t.ptr, s) := by
  have := h.ctx.1
  rw [run_right, this]
  cases f.side <;> rfl

end

/-! ## Links -/

/-- The link that leads to a place. -/
def linkTo : Ctx (Item τ) → Link
  | [] => .root
  | f :: _ => .child f.side f.a

theorem run_readLink (h : Holds N s k t) : (readLink (linkTo k)).run s = some (t.ptr, s) := by
  cases k with
  | nil => exact congrArg (fun p => some (p, s)) h.root_eq
  | cons f k => exact run_child h.ctx.1

theorem run_writeLink {q : ppointer} (h : Holds N s k t) :
    (writeLink q (linkTo k)).run s = some ((), s.hookRoot N k q) := by
  cases k with
  | nil => rfl
  | cons f k => exact run_setChild N h.ctx.1

/-! ## The searches -/

/-- The comparison of a key with the key of a node. -/
def keyCmp (compare_func : PCompareDataFunc) (key : ppointer) (x : Item τ) : ℤ := compare_func key x.key

variable {compare_func : PCompareDataFunc} {key : ppointer}

variable (compare_func key)

theorem run_findLinkStep (pn : ppointer) (h : Holds N s k (.node a l x r)) :
    (findLinkStep compare_func key (linkTo k, pn)).run s =
      some (if keyCmp compare_func key x < 0 then .next (.child .left a, a)
        else if keyCmp compare_func key x > 0 then .next (.child .right a, a)
        else .done (linkTo k, pn), s) := by
  have h0 : a ≠ 0 := h.ne_null (by simp)
  simp only [findLinkStep, StateT.run_bind, run_readLink h, Option.bind_eq_bind, Option.bind_some,
    AddrTree.ptr_node, if_neg h0, run_deref, h.get, Option.map_some, N.key_cell, keyCmp]
  split_ifs <;> simp [*]

theorem run_findLinkFrom (pn : ppointer) (h : Holds N s k t) (hn : t.size < n)
    (hpn : t = .nil → pn = Ctx.par k) :
    ∃ p, (loop (findLinkStep compare_func key) n (linkTo k, pn)).run s =
        some ((linkTo (t.search (keyCmp compare_func key) k).1, p), s) ∧
      ((t.search (keyCmp compare_func key) k).2 = .nil →
        p = Ctx.par (t.search (keyCmp compare_func key) k).1) := by
  induction t generalizing k n pn with
  | nil =>
    obtain ⟨n, rfl⟩ : ∃ m, n = m + 1 := ⟨n - 1, by omega⟩
    refine ⟨pn, loop_done ?_, fun _ => hpn rfl⟩
    simp [findLinkStep, run_readLink h, AddrTree.search]
  | node a l x r ihl ihr =>
    simp only [AddrTree.size] at hn
    obtain ⟨n, rfl⟩ : ∃ m, n = m + 1 := ⟨n - 1, by omega⟩
    have hstep := run_findLinkStep compare_func key pn h
    unfold AddrTree.search
    split_ifs at hstep ⊢ with h1 h2
    · rw [loop_next hstep]
      exact ihl a h.left (by omega) fun _ => rfl
    · rw [loop_next hstep]
      exact ihr a h.right (by omega) fun _ => rfl
    · exact ⟨pn, loop_done hstep, fun hc => by simp at hc⟩

theorem run_findLink (h : Holds N s [] t) (hn : t.size < n) :
    ∃ p, (findLink n compare_func key).run s =
        some ((linkTo (t.search (keyCmp compare_func key) []).1, p), s) ∧
      ((t.search (keyCmp compare_func key) []).2 = .nil →
        p = Ctx.par (t.search (keyCmp compare_func key) []).1) := by
  obtain ⟨p, hp, hpn⟩ := run_findLinkFrom compare_func key s.root h hn
    (by rintro rfl; exact h.root_eq)
  exact ⟨p, hp, hpn⟩

theorem run_findNode (h : Holds N s k t) (hn : t.size < n) :
    (findNode n compare_func key t.ptr).run s =
      some ((t.search (keyCmp compare_func key) k).2.ptr, s) := by
  induction t generalizing k n with
  | nil =>
    obtain ⟨n, rfl⟩ : ∃ m, n = m + 1 := ⟨n - 1, by omega⟩
    exact loop_done (by simp [AddrTree.search])
  | node a l x r ihl ihr =>
    simp only [AddrTree.size] at hn
    obtain ⟨n, rfl⟩ : ∃ m, n = m + 1 := ⟨n - 1, by omega⟩
    have h0 : a ≠ 0 := h.ne_null (by simp)
    unfold AddrTree.search
    split_ifs with h1 h2
    · exact (loop_next (by simp [h0, h.get, show compare_func key x.key < 0 from h1])).trans
        (ihl h.left (by omega))
    · refine (loop_next ?_).trans (ihr h.right (by omega))
      simp [h0, h.get, show ¬ compare_func key x.key < 0 from h1, show 0 < compare_func key x.key from h2]
    · refine loop_done ?_
      simp [h0, h.get, show ¬ compare_func key x.key < 0 from h1,
        show ¬ 0 < compare_func key x.key from h2]

variable {compare_func key}

theorem run_findRightmost (h : Holds N s k t) (ht : t ≠ .nil) (hn : t.size ≤ n) :
    (findRightmost n t.ptr).run s = some ((t.rightmost k).2.ptr, s) := by
  induction t generalizing k n with
  | nil => exact absurd rfl ht
  | node a l x r _ ihr =>
    simp only [AddrTree.size] at hn
    obtain ⟨n, rfl⟩ : ∃ m, n = m + 1 := ⟨n - 1, by omega⟩
    cases r with
    | nil => exact loop_done (by simp [h.get, AddrTree.rightmost])
    | node b l' y r' =>
      have hb : b ≠ 0 := h.right.ne_null (by simp)
      exact (loop_next (by simp [h.get, hb])).trans (ihr h.right (by simp) (by omega))

/-- The walk to the predecessor in the unbalanced tree also returns the link it followed. -/
theorem run_pTreeBstPrev_loop {N : NodeLayout Unit τ} {s : Mem Unit ω} (h : Holds N s k t)
    (ht : t ≠ .nil) (hn : t.size ≤ n) :
    (loop pTreeBstPrevStep n (linkTo k, t.ptr)).run s =
      some ((linkTo (t.rightmost k).1, (t.rightmost k).2.ptr), s) := by
  induction t generalizing k n with
  | nil => exact absurd rfl ht
  | node a l x r _ ihr =>
    simp only [AddrTree.size] at hn
    obtain ⟨n, rfl⟩ : ∃ m, n = m + 1 := ⟨n - 1, by omega⟩
    cases r with
    | nil => exact loop_done (by simp [pTreeBstPrevStep, h.get, AddrTree.rightmost])
    | node b l' y r' =>
      have hb : b ≠ 0 := h.right.ne_null (by simp)
      exact (loop_next (by simp [pTreeBstPrevStep, linkTo, h.get, hb])).trans (ihr h.right (by simp) (by omega))

end Plibsys
