/-
  The red-black property, of trees and of places.

  `RbTree c n t` is the property of a tree with a root of colour `c` and `n` black nodes
  on each way down.  `RbCtx c n k` is the property of the surroundings of a place: a tree
  with `n` black nodes on each way down, black at the root if `c` is black, may stand there.
-/
import Plibsys.Tree.Rotate

namespace Plibsys

open Looping Linked PTreeRBColor

abbrev RbNode := AddrTree (Item PTreeRBColor)

abbrev RbPlace := Ctx (Item PTreeRBColor)

/-! ## The property -/

/-- `NULL` counts as black. -/
def color : RbNode → PTreeRBColor
  | .nil => black
  | .node _ _ x _ => x.tag

/-- No red node has a red child. -/
def NoRedRed : RbNode → Prop
  | .nil => True
  | .node _ l x r => (x.tag = red → color l = black ∧ color r = black) ∧ NoRedRed l ∧ NoRedRed r

/-- The number of black nodes on a way down. -/
def blackCount (p : List (Item PTreeRBColor)) : ℕ := p.countP (·.tag = black)

/-- **The red-black property.** -/
structure RedBlack (t : RbNode) : Prop where
  root_black : color t = black
  no_red_red : NoRedRed t
  black_count : ∃ n, ∀ p ∈ t.paths, blackCount p = n

/-! ## Subtrees -/

inductive RbTree : PTreeRBColor → ℕ → RbNode → Prop
  | nil : RbTree black 0 .nil
  | red {n a l x r} : x.tag = red → RbTree black n l → RbTree black n r → RbTree red n (.node a l x r)
  | black {n a l x r c c'} : x.tag = black → RbTree c n l → RbTree c' n r →
      RbTree black (n + 1) (.node a l x r)

namespace RbTree

variable {c c' : PTreeRBColor} {n : ℕ} {t u : RbNode} {a : ℕ} {d : Side} {x x' : Item PTreeRBColor}

theorem color_eq (h : RbTree c n t) : color t = c := by
  cases h with
  | nil => rfl
  | red hx => exact hx
  | black hx => exact hx

theorem noRedRed (h : RbTree c n t) : NoRedRed t := by
  induction h with
  | nil => trivial
  | red hx hl hr ihl ihr => exact ⟨fun _ => ⟨hl.color_eq, hr.color_eq⟩, ihl, ihr⟩
  | black hx _ _ ihl ihr => exact ⟨fun h => by simp [hx] at h, ihl, ihr⟩

theorem blackCount_eq (h : RbTree c n t) {p : List (Item PTreeRBColor)} (hp : p ∈ t.paths) :
    blackCount p = n := by
  induction h generalizing p with
  | nil =>
    simp only [AddrTree.paths, List.mem_singleton] at hp
    simp [hp, blackCount]
  | red hx _ _ ihl ihr =>
    simp only [AddrTree.paths, List.mem_map, List.mem_append] at hp
    obtain ⟨q, hq | hq, rfl⟩ := hp
    · simpa [blackCount, hx] using ihl hq
    · simpa [blackCount, hx] using ihr hq
  | black hx _ _ ihl ihr =>
    simp only [AddrTree.paths, List.mem_map, List.mem_append] at hp
    obtain ⟨q, hq | hq, rfl⟩ := hp
    · simpa [blackCount, hx] using ihl hq
    · simpa [blackCount, hx] using ihr hq

theorem redBlack (h : RbTree PTreeRBColor.black n t) : RedBlack t :=
  ⟨h.color_eq, h.noRedRed, n, fun _ hp => h.blackCount_eq hp⟩

/-- A tree has at least `2 ^ n - 1` nodes, and its height is at most twice `n`, one more below
    a red root. -/
theorem size_height (h : RbTree c n t) :
    2 ^ n ≤ t.size + 1 ∧ t.height ≤ 2 * n + if c = PTreeRBColor.red then 1 else 0 := by
  induction h with
  | nil => simp [AddrTree.size, AddrTree.height]
  | red hx _ _ ihl ihr =>
    simp only [AddrTree.size, AddrTree.height, reduceCtorEq, if_false, if_true] at ihl ihr ⊢
    omega
  | @black n a l x r c c' hx _ _ ihl ihr =>
    simp only [AddrTree.size, AddrTree.height, reduceCtorEq, if_false, Nat.pow_succ] at ihl ihr ⊢
    have h1 : (if c = PTreeRBColor.red then 1 else 0) ≤ 1 := by split <;> omega
    have h2 : (if c' = PTreeRBColor.red then 1 else 0) ≤ 1 := by split <;> omega
    omega

theorem redS (hx : x.tag = PTreeRBColor.red) (ht : RbTree PTreeRBColor.black n t)
    (hu : RbTree PTreeRBColor.black n u) : RbTree PTreeRBColor.red n (.nodeS d a t x u) := by
  cases d
  · exact .red hx ht hu
  · exact .red hx hu ht

theorem blackS (hx : x.tag = PTreeRBColor.black) (ht : RbTree c n t) (hu : RbTree c' n u) :
    RbTree PTreeRBColor.black (n + 1) (.nodeS d a t x u) := by
  cases d
  · exact .black hx ht hu
  · exact .black hx hu ht

theorem of_redS (h : RbTree PTreeRBColor.red n (.nodeS d a t x u)) :
    x.tag = PTreeRBColor.red ∧ RbTree PTreeRBColor.black n t ∧ RbTree PTreeRBColor.black n u := by
  cases d
  · cases h with | red hx hl hr => exact ⟨hx, hl, hr⟩
  · cases h with | red hx hl hr => exact ⟨hx, hr, hl⟩

theorem of_blackS (h : RbTree PTreeRBColor.black n (.nodeS d a t x u)) :
    ∃ m c c', n = m + 1 ∧ x.tag = PTreeRBColor.black ∧ RbTree c m t ∧ RbTree c' m u := by
  cases d
  · cases h with | black hx hl hr => exact ⟨_, _, _, rfl, hx, hl, hr⟩
  · cases h with | black hx hl hr => exact ⟨_, _, _, rfl, hx, hr, hl⟩

/-- Only the colour of the payload matters. -/
theorem item (h : RbTree c n (.nodeS d a t x u)) (hx : x'.tag = x.tag) :
    RbTree c n (.nodeS d a t x' u) := by
  cases c with
  | red =>
    obtain ⟨hc, ht, hu⟩ := h.of_redS
    exact redS (hx.trans hc) ht hu
  | black =>
    obtain ⟨m, c, c', rfl, hc, ht, hu⟩ := h.of_blackS
    exact blackS (hx.trans hc) ht hu

end RbTree

/-! ## Places -/

inductive RbCtx : PTreeRBColor → ℕ → RbPlace → Prop
  | root {n} : RbCtx black n []
  | red {n f k} : f.x.tag = red → RbTree black n f.sib → RbCtx red n k → RbCtx black n (f :: k)
  | black {n f k c c'} : f.x.tag = black → RbTree c n f.sib → RbCtx c' (n + 1) k → RbCtx red n (f :: k)

/-- The node above a place is exchanged for one of the same colour, with a black tree on its
    other side. -/
theorem RbCtx.exchange {c : PTreeRBColor} {n : ℕ} {f g : Frame (Item PTreeRBColor)} {k : RbPlace}
    (h : RbCtx c n (f :: k)) (hx : g.x.tag = f.x.tag) (hs : RbTree .black n g.sib) : RbCtx c n (g :: k) := by
  cases h with
  | red hf _ hk => exact .red (hx.trans hf) hs hk
  | black hf _ hk => exact .black (hx.trans hf) hs hk

/-- A tree fits in a place: it is black or the place takes red trees. -/
theorem RbCtx.plug {c c' : PTreeRBColor} {n : ℕ} {k : RbPlace} {t : RbNode} (hk : RbCtx c n k)
    (ht : RbTree c' n t) (hc : c' = .red → c = .red) : ∃ m, RbTree .black m (Ctx.plug k t) := by
  induction hk generalizing c' t with
  | root =>
    cases c' with
    | red => simp at hc
    | black => exact ⟨_, ht⟩
  | red hx hs hk ih =>
    cases c' with
    | red => simp at hc
    | black => exact ih (RbTree.redS hx ht hs) fun _ => rfl
  | black hx hs hk ih => exact ih (RbTree.blackS hx ht hs) (by simp)

theorem rbCtx_of_plug {m : ℕ} {k : RbPlace} {t : RbNode} (h : RbTree .black m (Ctx.plug k t)) :
    ∃ c n c', RbCtx c n k ∧ RbTree c' n t ∧ (c' = .red → c = .red) := by
  induction k generalizing t with
  | nil => exact ⟨.black, m, .black, .root, h, id⟩
  | cons f k ih =>
    obtain ⟨c, n, c', hk, ht, hc⟩ := ih h
    cases c' with
    | red =>
      obtain ⟨hx, ht, hs⟩ := ht.of_redS
      obtain rfl := hc rfl
      exact ⟨_, _, _, .red hx hs hk, ht, by simp⟩
    | black =>
      obtain ⟨n, c', c'', rfl, hx, ht, hs⟩ := ht.of_blackS
      exact ⟨_, _, _, .black hx hs hk, ht, fun _ => rfl⟩

/-- The payload of a node is replaced by one of the same colour. -/
theorem rbTree_plug_item {m : ℕ} {k : RbPlace} {d : Side} {a : ℕ} {t u : RbNode} {x x' : Item PTreeRBColor}
    (h : RbTree .black m (Ctx.plug k (.nodeS d a t x u))) (hx : x'.tag = x.tag) :
    ∃ m, RbTree .black m (Ctx.plug k (.nodeS d a t x' u)) := by
  obtain ⟨c, n, c', hk, ht, hc⟩ := rbCtx_of_plug h
  exact hk.plug (ht.item hx) hc

end Plibsys
