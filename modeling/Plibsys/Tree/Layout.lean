/-
  Trees in memory: what the accesses and searches shared by the three tree types
  do on a memory that holds a tree.

  `Holds N s k t` says that the memory `s` holds the tree `t` at the place `k`, with
  nodes laid out as `N` says.  There are two layouts: `baseLayout` looks at the base
  node only, `parentLayout` also at the parent pointer.
-/
import Plibsys.Tree.Node

namespace Plibsys

open Looping Linked

variable {E τ ω : Type}

/-- What a node stores besides its links: a binding, and the colour or balance factor. -/
structure Item (τ : Type) where
  key : ppointer
  value : ppointer
  tag : τ
  deriving DecidableEq, Repr

/-- A layout whose links and bindings are those of the base node. -/
structure NodeLayout (E τ : Type) extends Layout (PTreeBaseNode E) (Item τ) where
  left_def : ∀ n, left n = n.left
  right_def : ∀ n, right n = n.right
  setLeft_def : ∀ q n, setLeft q n = { n with left := q }
  setRight_def : ∀ q n, setRight q n = { n with right := q }
  key_cell : ∀ l r p x, (cell l r p x).key = x.key
  value_cell : ∀ l r p x, (cell l r p x).value = x.value
  setKeyValue_cell : ∀ l r p x k v, { cell l r p x with key := k, value := v } =
    cell l r p { x with key := k, value := v }

/-- Base nodes: no parent pointer, all further fields are payload. -/
def baseLayout (E : Type) : NodeLayout E E where
  cell l r _ x := { left := l, right := r, key := x.key, value := x.value, ext := x.tag }
  left := PTreeBaseNode.left
  right := PTreeBaseNode.right
  setLeft q n := { n with left := q }
  setRight q n := { n with right := q }
  setParent _ n := n
  left_cell _ _ _ _ := rfl
  right_cell _ _ _ _ := rfl
  setLeft_cell _ _ _ _ _ := rfl
  setRight_cell _ _ _ _ _ := rfl
  setParent_cell _ _ _ _ _ := rfl
  left_def _ := rfl
  right_def _ := rfl
  setLeft_def _ _ := rfl
  setRight_def _ _ := rfl
  key_cell _ _ _ _ := rfl
  value_cell _ _ _ _ := rfl
  setKeyValue_cell _ _ _ _ _ _ := rfl

/-- Nodes with a parent pointer and a tag. -/
def parentLayout (τ : Type) : NodeLayout (ParentExt τ) τ where
  cell l r p x := { left := l, right := r, key := x.key, value := x.value,
                    ext := { parent := p, tag := x.tag } }
  left := PTreeBaseNode.left
  right := PTreeBaseNode.right
  setLeft q n := { n with left := q }
  setRight q n := { n with right := q }
  setParent q n := { n with ext := { n.ext with parent := q } }
  left_cell _ _ _ _ := rfl
  right_cell _ _ _ _ := rfl
  setLeft_cell _ _ _ _ _ := rfl
  setRight_cell _ _ _ _ _ := rfl
  setParent_cell _ _ _ _ _ := rfl
  left_def _ := rfl
  right_def _ := rfl
  setLeft_def _ _ := rfl
  setRight_def _ _ := rfl
  key_cell _ _ _ _ := rfl
  value_cell _ _ _ _ := rfl
  setKeyValue_cell _ _ _ _ _ _ := rfl

/-! ## Reads and writes -/

namespace Mem
variable (s : Mem E ω) (p q b : ppointer) (f : PTreeBaseNode E → PTreeBaseNode E) (w : ω)

@[simp] theorem get_withRoot : (s.withRoot q).get b = s.get b := rfl
@[simp] theorem get_withWorld : (s.withWorld w).get b = s.get b := rfl
@[simp] theorem root_withRoot : (s.withRoot q).root = q := rfl
@[simp] theorem root_withWorld : (s.withWorld w).root = s.root := rfl
@[simp] theorem root_modify : (s.modify p f).root = s.root := rfl
@[simp] theorem root_store (n) : (s.store p n).root = s.root := rfl
@[simp] theorem world_withRoot : (s.withRoot q).world = s.world := rfl
@[simp] theorem world_withWorld : (s.withWorld w).world = w := rfl
@[simp] theorem world_modify : (s.modify p f).world = s.world := rfl
@[simp] theorem world_store (n) : (s.store p n).world = s.world := rfl

theorem get_store (n) : (s.store p n).get b = if b = p ∧ b ≠ 0 then n else s.get b := by
  unfold get store
  by_cases hb : b = NULL
  · simp [hb]
  · by_cases hbp : b = p
    · subst hbp; simp [hb]
    · simp [hb, hbp]

theorem get_modify : (s.modify p f).get b = if b = p then (s.get b).map f else s.get b := by
  rw [modify, get_store]
  by_cases hb : b = 0
  · subst hb; simp [get]
  · by_cases hbp : b = p
    · subst hbp; simp [get, hb]
    · simp [hbp]

theorem get_modify_self : (s.modify p f).get p = (s.get p).map f := by simp [get_modify]

variable {s p} in
theorem get_modify_eq {n : PTreeBaseNode E} (h : s.get p = some n) :
    (s.modify p f).get p = some (f n) := by
  rw [get_modify_self, h]; rfl

variable {s p b f} in
theorem get_modify_of_ne (h : b ≠ p) : (s.modify p f).get b = s.get b := by simp [get_modify, h]

variable {s p b f} in
theorem get_modify_eq_none : (s.modify p f).get b = none ↔ s.get b = none := by
  rw [get_modify]
  split
  · exact Option.map_eq_none_iff
  · rfl

end Mem

section
variable (s : Mem E ω) (p q : ppointer)

@[simp] theorem run_deref : (deref p).run s = (s.get p).map fun n => (n, s) := rfl

@[simp] theorem run_assign (f : PTreeBaseNode E → PTreeBaseNode E) :
    (assign p f).run s = (s.get p).map fun _ => ((), s.modify p f) := rfl

@[simp] theorem run_getRoot : (getRoot (E := E)).run s = some (s.root, s) := rfl

@[simp] theorem run_setRoot : (setRoot (E := E) p).run s = some ((), s.withRoot p) := rfl

@[simp] theorem run_left : (left p).run s = (s.get p).map fun n => (n.left, s) := by
  cases h : s.get p <;> simp [left, h]

@[simp] theorem run_right : (right p).run s = (s.get p).map fun n => (n.right, s) := by
  cases h : s.get p <;> simp [right, h]

@[simp] theorem run_setLeft :
    (setLeft p q).run s = (s.get p).map fun _ => ((), s.modify p fun n => { n with left := q }) := rfl

@[simp] theorem run_setRight :
    (setRight p q).run s = (s.get p).map fun _ => ((), s.modify p fun n => { n with right := q }) := rfl

@[simp] theorem run_free : (free p).run s = (s.get p).map fun _ => ((), s.store p none) := rfl

theorem run_parent (s : Mem (ParentExt τ) ω) (p : ppointer) :
    (parent p).run s = (s.get p).map fun n => (n.ext.parent, s) := by
  cases h : s.get p <;> simp [parent, h]

theorem run_tag (s : Mem (ParentExt τ) ω) (p : ppointer) :
    (tag p).run s = (s.get p).map fun n => (n.ext.tag, s) := by
  cases h : s.get p <;> simp [tag, h]

theorem run_setParent (s : Mem (ParentExt τ) ω) (p q : ppointer) :
    (setParent p q).run s = (s.get p).map fun _ => ((), s.modify p ((parentLayout τ).setParent q)) := rfl

end

/-! ## Cells of a layout -/

namespace NodeLayout
variable (N : NodeLayout E τ) (d : Side) (n f r q : ppointer) (x : Item τ)

@[simp] theorem cell_left : (N.cell n f r x).left = n := by rw [← N.left_def, N.left_cell]

@[simp] theorem cell_right : (N.cell n f r x).right = f := by rw [← N.right_def, N.right_cell]

attribute [simp] key_cell value_cell setKeyValue_cell

theorem cellS_other : N.cellS d.other n f r x = N.cellS d f n r x := by cases d <;> rfl

@[simp] theorem cellS_key : (N.cellS d n f r x).key = x.key := by cases d <;> simp [Layout.cellS]

@[simp] theorem cellS_value : (N.cellS d n f r x).value = x.value := by cases d <;> simp [Layout.cellS]

theorem setLink_other_cellS : N.setLink d.other q (N.cellS d n f r x) = N.cellS d n q r x := by
  rw [← N.cellS_other d, N.setLink_cellS, N.cellS_other]

end NodeLayout

@[simp] theorem parent_cell (l r p : ppointer) (x : Item τ) :
    ((parentLayout τ).cell l r p x).ext.parent = p := rfl

@[simp] theorem tag_cell (l r p : ppointer) (x : Item τ) :
    ((parentLayout τ).cell l r p x).ext.tag = x.tag := rfl

@[simp] theorem parent_cellS (d : Side) (n f r : ppointer) (x : Item τ) :
    ((parentLayout τ).cellS d n f r x).ext.parent = r := by cases d <;> rfl

@[simp] theorem tag_cellS (d : Side) (n f r : ppointer) (x : Item τ) :
    ((parentLayout τ).cellS d n f r x).ext.tag = x.tag := by cases d <;> rfl

section
variable {N : NodeLayout E τ} {s : Mem E ω} {d : Side} {p q n f r : ppointer} {x : Item τ}

theorem run_child (h : s.get p = some (N.cellS d n f r x)) : (child d p).run s = some (n, s) := by
  cases d <;> simp [child, h, Layout.cellS]

theorem run_child_other (h : s.get p = some (N.cellS d n f r x)) :
    (child d.other p).run s = some (f, s) := by
  cases d <;> simp [child, h, Layout.cellS, Side.other]

theorem run_setChild {m : PTreeBaseNode E} (N : NodeLayout E τ) (h : s.get p = some m) :
    (setChild d p q).run s = some ((), s.modify p (N.setLink d q)) := by
  cases d <;> simp [setChild, h, Layout.setLink, funext (N.setLeft_def q), funext (N.setRight_def q)]

theorem run_relink {old : ppointer} (h : s.get p = some (N.cellS d old f r x)) (hne : f ≠ old) :
    (relink p old q).run s = some ((), s.modify p (N.setLink d q)) := by
  cases d
  · simp [relink, h, Layout.cellS, Layout.setLink, funext (N.setLeft_def q)]
  · simp [relink, h, hne, Layout.cellS, Layout.setLink, funext (N.setRight_def q)]

end

namespace Mem

/-- The effect of `if (node != NULL) node->parent = par`. -/
def adopt (s : Mem (ParentExt τ) ω) (b p : ppointer) : Mem (ParentExt τ) ω :=
  if b = NULL then s else s.modify b ((parentLayout τ).setParent p)

variable {s : Mem (ParentExt τ) ω} {b c p : ppointer}

@[simp] theorem root_adopt : (s.adopt b p).root = s.root := by unfold adopt; split <;> rfl
@[simp] theorem world_adopt : (s.adopt b p).world = s.world := by unfold adopt; split <;> rfl

theorem get_adopt_of_ne (h : c ≠ b) : (s.adopt b p).get c = s.get c := by
  unfold adopt; split
  · rfl
  · exact get_modify_of_ne h

theorem get_adopt_self (h : b ≠ 0) :
    (s.adopt b p).get b = (s.get b).map ((parentLayout τ).setParent p) := by
  rw [adopt, if_neg h, get_modify_self]

end Mem

theorem run_reparent {s : Mem (ParentExt τ) ω} {b p : ppointer} (h : b = 0 ∨ (s.get b).isSome) :
    (reparent b p).run s = some ((), s.adopt b p) := by
  unfold reparent Mem.adopt
  by_cases hb : b = 0
  · simp [hb]
  · obtain ⟨n, hn⟩ := Option.isSome_iff_exists.1 (h.resolve_left hb)
    simp [hb, run_setParent, hn]

/-! ## Memories that hold a tree -/

/-- The memory holds the tree `t` at the place `k`. -/
abbrev Holds (N : NodeLayout E τ) (s : Mem E ω) (k : Ctx (Item τ)) (t : AddrTree (Item τ)) : Prop :=
  Zip N.toLayout s.get s.root k t

/-- The node above the place `k` links to `old`, on the side of the place only. -/
def Hooked (N : NodeLayout E τ) (s : Mem E ω) (old : ppointer) (k : Ctx (Item τ)) : Prop :=
  ∀ f ∈ k.head?, f.a ≠ 0 ∧ f.sib.ptr ≠ old ∧
    ∃ r x, s.get f.a = some (N.cellS f.side old f.sib.ptr r x)

/-- The link above the place `k` set to `q`; there is none above the root. -/
def Mem.hook (N : NodeLayout E τ) (s : Mem E ω) (k : Ctx (Item τ)) (q : ppointer) : Mem E ω :=
  match k with
  | [] => s
  | f :: _ => s.modify f.a (N.setLink f.side q)

/-- The same, with the root variable above the root. -/
def Mem.hookRoot (N : NodeLayout E τ) (s : Mem E ω) (k : Ctx (Item τ)) (q : ppointer) : Mem E ω :=
  match k with
  | [] => s.withRoot q
  | f :: _ => s.modify f.a (N.setLink f.side q)

section
variable {N : NodeLayout E τ} {s s' : Mem E ω} {k : Ctx (Item τ)} {t : AddrTree (Item τ)} {b old q : ppointer}

@[simp] theorem Mem.root_hook : (s.hook N k q).root = s.root := by cases k <;> rfl
@[simp] theorem Mem.world_hook : (s.hook N k q).world = s.world := by cases k <;> rfl
@[simp] theorem Mem.world_hookRoot : (s.hookRoot N k q).world = s.world := by cases k <;> rfl

theorem Mem.get_hookRoot : (s.hookRoot N k q).get b = (s.hook N k q).get b := by cases k <;> rfl

theorem Mem.root_hookRoot (h : s.root = Ctx.root k old) : (s.hookRoot N k q).root = Ctx.root k q := by
  cases k
  · rfl
  · exact h

theorem Mem.get_hook_of_ne (h : b ≠ Ctx.par k) : (s.hook N k q).get b = s.get b := by
  cases k
  · rfl
  · exact Mem.get_modify_of_ne h

theorem Mem.get_hook_head : ∀ f ∈ k.head?, (s.hook N k q).get f.a = (s.get f.a).map (N.setLink f.side q) := by
  intro f hf
  cases k with
  | nil => simp at hf
  | cons g k =>
    cases Option.some.inj hf
    exact Mem.get_modify_self ..

theorem Holds.hooked (h : Holds N s k t) (ht : t ≠ .nil) : Hooked N s t.ptr k := by
  intro f hf
  obtain ⟨hk, -, -, hn⟩ := h
  cases k with
  | nil => simp at hf
  | cons g k =>
    cases Option.some.inj hf
    have ht := AddrTree.ptr_mem ht
    have hs := f.sib.ptr_mem_cons
    simp only [Ctx.addrs, List.nodup_cons, List.nodup_append, List.mem_cons, List.mem_append, not_or] at hn hs
    exact ⟨by grind only, by grind only, _, _, hk.1⟩

theorem Hooked.congr (h : Hooked N s old k) (hs : ∀ f ∈ k.head?, s'.get f.a = s.get f.a) :
    Hooked N s' old k := by
  intro f hf
  obtain ⟨h1, h2, r, x, h3⟩ := h f hf
  exact ⟨h1, h2, r, x, (hs f hf).trans h3⟩

theorem run_relinkParent (h : Hooked N s old k) :
    (relinkParent (Ctx.par k) old q).run s = some ((), s.hook N k q) := by
  cases k with
  | nil => rfl
  | cons f k =>
    obtain ⟨h1, h2, r, x, h3⟩ := h f rfl
    rw [relinkParent, Ctx.par, if_pos h1, run_relink h3 h2]
    rfl

theorem run_relinkOrRoot (h : Hooked N s old k) :
    (relinkOrRoot (Ctx.par k) old q).run s = some ((), s.hookRoot N k q) := by
  cases k with
  | nil => rfl
  | cons f k =>
    obtain ⟨h1, h2, r, x, h3⟩ := h f rfl
    rw [relinkOrRoot, Ctx.par, if_pos h1, run_relink h3 h2]
    rfl

end

end Plibsys
