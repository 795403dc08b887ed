/-
  The AVL property, of trees and of places.

  `AvlCtx h k` is the property of the surroundings of a place: a balanced tree of height
  `h` may stand there.
-/
import Plibsys.Tree.Rotate

namespace Plibsys

open Looping Linked

abbrev AvlNode := AddrTree (Item pint)

abbrev AvlPlace := Ctx (Item pint)

/-! ## Balance factors as integers -/

/-- By how much the balance factor `sideBalance d` counts. -/
def sideSign (d : Side) : ℤ :=
  match d with
  | .left => 1
  | .right => -1

section
variable {b : pint} {d : Side}

@[simp] theorem toInt_sideBalance (d : Side) : (sideBalance d).toInt = sideSign d := by cases d <;> rfl

@[simp] theorem toInt_neg_sideBalance (d : Side) : (-sideBalance d).toInt = -sideSign d := by cases d <;> rfl

theorem eq_sideBalance : b = sideBalance d ↔ b.toInt = sideSign d := by
  rw [← Int32.toInt_inj, toInt_sideBalance]

theorem eq_neg_sideBalance : b = -sideBalance d ↔ b.toInt = -sideSign d := by
  rw [← Int32.toInt_inj, toInt_neg_sideBalance]

theorem eq_zero_balance : b = 0 ↔ b.toInt = 0 := by
  rw [← Int32.toInt_inj, Int32.toInt_zero]

theorem toInt_restoredBalance_left : (restoredBalance b .left).toInt = if b.toInt = -1 then 1 else 0 := by
  have hb : b = -1 ↔ b.toInt = -1 := eq_neg_sideBalance (d := .left)
  simp only [restoredBalance, hb]
  split <;> rfl

theorem toInt_restoredBalance_right : (restoredBalance b .right).toInt = if b.toInt = 1 then -1 else 0 := by
  have hb : b = 1 ↔ b.toInt = 1 := eq_sideBalance (d := .left)
  simp only [restoredBalance, hb]
  split <;> rfl

end

/-! ## The property -/

/-- **The AVL property**: the balance factors are the differences of the heights, and at most one
    in size. -/
def AvlBalanced : AvlNode → Prop
  | .nil => True
  | .node _ l x r => x.tag.toInt = (l.height : ℤ) - r.height ∧ -1 ≤ x.tag.toInt ∧ x.tag.toInt ≤ 1 ∧
      AvlBalanced l ∧ AvlBalanced r

def AvlCtx : ℕ → AvlPlace → Prop
  | _, [] => True
  | h, f :: k => f.x.tag.toInt = sideSign f.side * ((h : ℤ) - f.sib.height) ∧ -1 ≤ f.x.tag.toInt ∧
      f.x.tag.toInt ≤ 1 ∧ AvlBalanced f.sib ∧ AvlCtx (max h f.sib.height + 1) k

variable {d : Side} {a h : ℕ} {t u : AvlNode} {x x' : Item pint} {k : AvlPlace}

theorem avlBalanced_nodeS : AvlBalanced (.nodeS d a t x u) ↔
    x.tag.toInt = sideSign d * ((t.height : ℤ) - u.height) ∧ -1 ≤ x.tag.toInt ∧ x.tag.toInt ≤ 1 ∧
      AvlBalanced t ∧ AvlBalanced u := by
  cases d
  · simp [AddrTree.nodeS, AvlBalanced, sideSign]
  · have : x.tag.toInt = (u.height : ℤ) - t.height ↔
        x.tag.toInt = sideSign .right * ((t.height : ℤ) - u.height) := by
      simp only [sideSign]
      omega
    rw [← this]
    simp only [AddrTree.nodeS, AvlBalanced]
    tauto

theorem avlCtx_cons : AvlCtx h (⟨d, a, x, u⟩ :: k) ↔
    x.tag.toInt = sideSign d * ((h : ℤ) - u.height) ∧ -1 ≤ x.tag.toInt ∧ x.tag.toInt ≤ 1 ∧ AvlBalanced u ∧
      AvlCtx (max h u.height + 1) k := Iff.rfl

theorem avlBalanced_plug : AvlBalanced (Ctx.plug k t) ↔ AvlBalanced t ∧ AvlCtx t.height k := by
  induction k generalizing t with
  | nil => simp [Ctx.plug, AvlCtx]
  | cons f k ih =>
    rw [Ctx.plug, ih, Frame.plug, avlBalanced_nodeS, AddrTree.height_nodeS, AvlCtx]
    tauto

/-- The payload of a node is replaced by one with the same balance factor. -/
theorem avlBalanced_plug_item (h : AvlBalanced (Ctx.plug k (.nodeS d a t x u))) (hx : x'.tag = x.tag) :
    AvlBalanced (Ctx.plug k (.nodeS d a t x' u)) := by
  rw [avlBalanced_plug, avlBalanced_nodeS, AddrTree.height_nodeS] at h ⊢
  rwa [hx]

/-- The double rotation of a tree whose inner subtree is one higher than the outer two. -/
theorem AvlBalanced.double {p q r m : ℕ} {A B D E : AvlNode} {y z : Item pint} (hA : AvlBalanced A)
    (hR : AvlBalanced (.nodeS d r B z D)) (hE : AvlBalanced E) (hAm : A.height = m)
    (hRm : (AddrTree.nodeS d r B z D).height = m + 1) (hEm : E.height = m) :
    AvlBalanced (.nodeS d r (.nodeS d q A (y.withTag (restoredBalance z.tag d)) B) (z.withTag 0)
      (.nodeS d p D (x.withTag (restoredBalance z.tag d.other)) E)) ∧
    (AddrTree.nodeS d r (.nodeS d q A (y.withTag (restoredBalance z.tag d)) B) (z.withTag 0)
      (.nodeS d p D (x.withTag (restoredBalance z.tag d.other)) E)).height = m + 2 := by
  obtain ⟨hz, hz₁, hz₂, hB, hD⟩ := avlBalanced_nodeS.1 hR
  rw [AddrTree.height_nodeS] at hRm
  -- the balance factor of the middle node says which of its subtrees is lower
  have hq : (restoredBalance z.tag d).toInt = sideSign d * ((A.height : ℤ) - B.height) ∧
      -1 ≤ (restoredBalance z.tag d).toInt ∧ (restoredBalance z.tag d).toInt ≤ 1 := by
    cases d <;> simp only [toInt_restoredBalance_left, toInt_restoredBalance_right, sideSign] at hz ⊢ <;>
      split <;> omega
  have hp : (restoredBalance z.tag d.other).toInt = sideSign d * ((D.height : ℤ) - E.height) ∧
      -1 ≤ (restoredBalance z.tag d.other).toInt ∧ (restoredBalance z.tag d.other).toInt ≤ 1 := by
    cases d <;> simp only [toInt_restoredBalance_left, toInt_restoredBalance_right, sideSign, Side.other]
      at hz ⊢ <;> split <;> omega
  have hheight : max A.height B.height = m ∧ max D.height E.height = m := by omega
  constructor
  · refine avlBalanced_nodeS.2 ⟨?_, by simp, by simp, avlBalanced_nodeS.2 ⟨hq.1, hq.2.1, hq.2.2, hA, hB⟩,
      avlBalanced_nodeS.2 ⟨hp.1, hp.2.1, hp.2.2, hD, hE⟩⟩
    rw [AddrTree.height_nodeS, AddrTree.height_nodeS, hheight.1, hheight.2]
    simp
  · rw [AddrTree.height_nodeS, AddrTree.height_nodeS, AddrTree.height_nodeS, hheight.1, hheight.2]
    omega

end Plibsys
