/-
  Binary trees whose nodes have addresses, and their contexts.

  An `AddrTree` is the shape of a linked structure: every node carries the address of
  its cell.  A `Ctx` is the way from a subtree up to the root, one frame for each
  ancestor, innermost first; `plug` fills its hole.  `search` and `rightmost` walk
  down a tree and return the place reached together with the way to it.
-/
import Mathlib.Data.Int.Notation
import Mathlib.Data.List.Perm.Basic
import Mathlib.Tactic.Common

namespace Linked

/-- The two sides of a node. -/
inductive Side where
  | left
  | right
  deriving DecidableEq, Repr

/-- A binary tree whose nodes carry the address of their cell. -/
inductive AddrTree (α : Type) where
  | nil
  | node (a : ℕ) (l : AddrTree α) (x : α) (r : AddrTree α)
  deriving DecidableEq, Repr

def Side.other : Side → Side
  | .left => .right
  | .right => .left

@[simp] theorem Side.other_other (d : Side) : d.other.other = d := by cases d <;> rfl

variable {C α : Type}

namespace AddrTree

/-- The address of the root; the empty tree is the null pointer. -/
def ptr : AddrTree α → ℕ
  | nil => 0
  | node a _ _ _ => a

def addrs : AddrTree α → List ℕ
  | nil => []
  | node a l _ r => a :: (l.addrs ++ r.addrs)

/-- The payloads in order. -/
def toList : AddrTree α → List α
  | nil => []
  | node _ l x r => l.toList ++ x :: r.toList

def size : AddrTree α → ℕ
  | nil => 0
  | node _ l _ r => l.size + r.size + 1

/-- The number of nodes on a longest path from the root down. -/
def height : AddrTree α → ℕ
  | nil => 0
  | node _ l _ r => max l.height r.height + 1

/-- The node with `near` on side `d` and `far` on the other side. -/
def nodeS (d : Side) (a : ℕ) (near : AddrTree α) (x : α) (far : AddrTree α) : AddrTree α :=
  match d with
  | .left => node a near x far
  | .right => node a far x near

@[simp] theorem ptr_nil : (nil : AddrTree α).ptr = 0 := rfl
@[simp] theorem ptr_node (a : ℕ) (l r : AddrTree α) (x : α) : (node a l x r).ptr = a := rfl
@[simp] theorem ptr_nodeS (d : Side) (a : ℕ) (t u : AddrTree α) (x : α) : (nodeS d a t x u).ptr = a := by
  cases d <;> rfl

theorem nodeS_ne_nil (d : Side) (a : ℕ) (t u : AddrTree α) (x : α) : nodeS d a t x u ≠ nil := by
  cases d <;> simp [nodeS]

theorem nodeS_other (d : Side) (a : ℕ) (t u : AddrTree α) (x : α) : nodeS d.other a t x u = nodeS d a u x t := by
  cases d <;> rfl

theorem addrs_nodeS (d : Side) (a : ℕ) (t u : AddrTree α) (x : α) :
    (nodeS d a t x u).addrs.Perm (a :: (t.addrs ++ u.addrs)) := by
  cases d
  · exact .refl _
  · exact .cons _ List.perm_append_comm

theorem height_nodeS (d : Side) (a : ℕ) (t u : AddrTree α) (x : α) :
    (nodeS d a t x u).height = max t.height u.height + 1 := by
  cases d
  · rfl
  · simp only [nodeS, height, Nat.max_comm]

theorem ptr_mem {t : AddrTree α} (h : t ≠ nil) : t.ptr ∈ t.addrs := by
  cases t with
  | nil => exact absurd rfl h
  | node a l x r => simp [addrs]

/-- The payloads along each way from the root to the empty places. -/
def paths : AddrTree α → List (List α)
  | nil => [[]]
  | node _ l x r => (l.paths ++ r.paths).map (x :: ·)

theorem length_le_height {t : AddrTree α} {p : List α} (h : p ∈ t.paths) : p.length ≤ t.height := by
  induction t generalizing p with
  | nil =>
    simp only [paths, List.mem_singleton] at h
    simp [h, height]
  | node a l x r ihl ihr =>
    simp only [paths, List.mem_map, List.mem_append] at h
    obtain ⟨q, hq | hq, rfl⟩ := h
    · have := ihl hq
      simp only [List.length_cons, height]
      omega
    · have := ihr hq
      simp only [List.length_cons, height]
      omega

theorem length_toList (t : AddrTree α) : t.toList.length = t.size := by
  induction t with
  | nil => rfl
  | node a l x r ihl ihr => simp only [toList, List.length_append, List.length_cons, size, ihl, ihr]; omega

theorem length_addrs (t : AddrTree α) : t.addrs.length = t.size := by
  induction t with
  | nil => rfl
  | node a l x r ihl ihr => simp [addrs, size, ihl, ihr]

end AddrTree

open AddrTree

/-! ## Contexts -/

/-- One step up: the ancestor, the side on which the hole is, and the subtree on
    the other side. -/
structure Frame (α : Type) where
  side : Side
  a : ℕ
  x : α
  sib : AddrTree α

/-- The way from a hole to the root, innermost frame first. -/
abbrev Ctx (α : Type) := List (Frame α)

def Frame.plug (f : Frame α) (t : AddrTree α) : AddrTree α := nodeS f.side f.a t f.x f.sib

namespace Ctx

/-- The address of the parent of the hole. -/
def par : Ctx α → ℕ
  | [] => 0
  | f :: _ => f.a

/-- The address of the root when the hole is filled by `p`. -/
def root : Ctx α → ℕ → ℕ
  | [], p => p
  | f :: k, _ => root k f.a

def plug : Ctx α → AddrTree α → AddrTree α
  | [], t => t
  | f :: k, t => plug k (f.plug t)

def addrs : Ctx α → List ℕ
  | [] => []
  | f :: k => f.a :: (f.sib.addrs ++ addrs k)

/-- The payloads in order before the hole. -/
def before : Ctx α → List α
  | [] => []
  | ⟨.left, _, _, _⟩ :: k => before k
  | ⟨.right, _, x, l⟩ :: k => before k ++ (l.toList ++ [x])

/-- The payloads in order after the hole. -/
def after : Ctx α → List α
  | [] => []
  | ⟨.left, _, x, r⟩ :: k => x :: (r.toList ++ after k)
  | ⟨.right, _, _, _⟩ :: k => after k

theorem plug_append (k k' : Ctx α) (t : AddrTree α) : plug (k ++ k') t = plug k' (plug k t) := by
  induction k generalizing t with
  | nil => rfl
  | cons f k ih => exact ih _

theorem toList_plug (k : Ctx α) (t : AddrTree α) : (plug k t).toList = before k ++ t.toList ++ after k := by
  induction k generalizing t with
  | nil => simp [plug, before, after]
  | cons f k ih =>
    obtain ⟨d, a, x, s⟩ := f
    cases d <;> simp [plug, ih, Frame.plug, nodeS, toList, before, after]

theorem before_append (k k' : Ctx α) : before (k ++ k') = before k' ++ before k := by
  induction k with
  | nil => simp [before]
  | cons f k ih =>
    obtain ⟨d, a, x, s⟩ := f
    cases d <;> simp [before, ih]

theorem after_append (k k' : Ctx α) : after (k ++ k') = after k ++ after k' := by
  induction k with
  | nil => simp [after]
  | cons f k ih =>
    obtain ⟨d, a, x, s⟩ := f
    cases d <;> simp [after, ih]

theorem addrs_plug (k : Ctx α) (t : AddrTree α) : (plug k t).addrs.Perm (t.addrs ++ addrs k) := by
  induction k generalizing t with
  | nil => simp [plug, addrs]
  | cons f k ih =>
    refine (ih _).trans ?_
    have h := (addrs_nodeS f.side f.a t f.sib f.x).append_right (addrs k)
    refine h.trans ?_
    simp only [addrs, List.cons_append, List.append_assoc]
    exact List.perm_middle.symm

theorem size_plug (k : Ctx α) (t : AddrTree α) : (plug k t).size = t.size + (addrs k).length := by
  have h := (addrs_plug k t).length_eq
  rwa [length_addrs, List.length_append, length_addrs] at h

theorem length_le (k : Ctx α) : k.length ≤ (addrs k).length := by
  induction k with
  | nil => exact Nat.le_refl _
  | cons f k ih => simp only [addrs, List.length_cons, List.length_append]; omega

theorem length_lt_size {k : Ctx α} {t : AddrTree α} (h : t ≠ nil) : k.length < (plug k t).size := by
  have := length_le k
  rw [size_plug]
  cases t with
  | nil => exact absurd rfl h
  | node a l x r => simp only [size]; omega

theorem plug_ne_nil {k : Ctx α} {t : AddrTree α} (h : t ≠ nil) : plug k t ≠ nil := by
  intro he
  have := size_plug k t
  rw [he] at this
  cases t with
  | nil => exact h rfl
  | node a l x r => simp only [size] at this; omega

end Ctx

/-! ## Walking down -/

namespace AddrTree

/-- Walk down, to the left where `g` is negative and to the right where it is
    positive; the result is the subtree reached and the way to it. -/
def search (g : α → ℤ) : AddrTree α → Ctx α → Ctx α × AddrTree α
  | nil, k => (k, nil)
  | node a l x r, k =>
    if g x < 0 then search g l (⟨.left, a, x, r⟩ :: k)
    else if g x > 0 then search g r (⟨.right, a, x, l⟩ :: k)
    else (k, node a l x r)

/-- The last node in order, and the way to it. -/
def rightmost : AddrTree α → Ctx α → Ctx α × AddrTree α
  | nil, k => (k, nil)
  | node a l x nil, k => (k, node a l x nil)
  | node a l x (node b l' y r), k => rightmost (node b l' y r) (⟨.right, a, x, l⟩ :: k)

theorem plug_search (g : α → ℤ) (t : AddrTree α) (k : Ctx α) :
    Ctx.plug (search g t k).1 (search g t k).2 = Ctx.plug k t := by
  induction t generalizing k with
  | nil => rfl
  | node a l x r ihl ihr =>
    unfold search
    split_ifs
    · exact ihl _
    · exact ihr _
    · rfl

theorem search_hit {g : α → ℤ} {t : AddrTree α} {k : Ctx α} {a : ℕ} {l r : AddrTree α} {x : α}
    (h : (search g t k).2 = node a l x r) : g x = 0 := by
  induction t generalizing k with
  | nil => cases h
  | node b l' y r' ihl ihr =>
    unfold search at h
    split_ifs at h
    · exact ihl h
    · exact ihr h
    · cases h; omega

/-- `g` is positive, then zero at most once, then negative along `xs`: the side on
    which a key lies, along an ordered list. -/
def Directed (g : α → ℤ) (xs : List α) : Prop := xs.Pairwise fun x y => g x ≤ 0 → g y < 0

/-- Everything before the place reached lies below, everything after it above. -/
theorem search_sides {g : α → ℤ} {t : AddrTree α} {k : Ctx α} (hd : Directed g t.toList)
    (hb : ∀ y ∈ Ctx.before k, 0 < g y) (ha : ∀ y ∈ Ctx.after k, g y < 0) :
    (∀ y ∈ Ctx.before (search g t k).1, 0 < g y) ∧ (∀ y ∈ Ctx.after (search g t k).1, g y < 0) := by
  induction t generalizing k with
  | nil => exact ⟨hb, ha⟩
  | node a l x r ihl ihr =>
    obtain ⟨hl, hr, hlr⟩ := List.pairwise_append.1 hd
    obtain ⟨hxr, hr⟩ := List.pairwise_cons.1 hr
    unfold search
    split_ifs with h1 h2
    · refine ihl hl hb fun y hy => ?_
      simp only [Ctx.after, List.mem_cons, List.mem_append] at hy
      rcases hy with rfl | hy | hy
      · exact h1
      · exact hxr y hy (Int.le_of_lt h1)
      · exact ha y hy
    · refine ihr hr (fun y hy => ?_) ha
      simp only [Ctx.before, List.mem_append, List.mem_singleton] at hy
      rcases hy with hy | hy | rfl
      · exact hb y hy
      · by_contra hn
        have := hlr y hy x (by simp) (Int.not_lt.1 hn)
        omega
      · exact h2
    · exact ⟨hb, ha⟩

/-- The last node has no right child, and nothing lies between it and the end. -/
theorem rightmost_spec {t : AddrTree α} (ht : t ≠ nil) (k : Ctx α) :
    ∃ k' b l y, rightmost t k = (k' ++ k, node b l y nil) ∧ Ctx.plug k' (node b l y nil) = t ∧
      Ctx.after k' = [] := by
  induction t generalizing k with
  | nil => exact absurd rfl ht
  | node a l x r _ ihr =>
    cases r with
    | nil => exact ⟨[], a, l, x, rfl, rfl, rfl⟩
    | node b l' y r =>
      obtain ⟨k', c, l₂, z, he, hp, ha⟩ := ihr (by simp) (⟨.right, a, x, l⟩ :: k)
      refine ⟨k' ++ [⟨.right, a, x, l⟩], c, l₂, z, ?_, ?_, ?_⟩
      · rw [rightmost, he, List.append_assoc]; rfl
      · rw [Ctx.plug_append, hp]; rfl
      · rw [Ctx.after_append, ha]; rfl

end AddrTree

end Linked
