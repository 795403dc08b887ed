/-
  The changes that the three tree types have in common: a new binding in a node, a new
  leaf, the choice of the node to be removed, and its removal.
-/
import Plibsys.Tree.Search

namespace Plibsys

open Looping Linked

variable {E τ ω : Type} {N : NodeLayout E τ} {s : Mem E ω} {k : Ctx (Item τ)} {t l r : AddrTree (Item τ)}
  {x : Item τ} {a fuel : ℕ} {d : Side}

/-! ## Destroy notifications -/

/-- The outside world after a notification for `p`. -/
def notified (func : Option (PDestroyFunc ω)) (p : ppointer) (world : ω) : ω :=
  match func with
  | none => world
  | some f => f p world

/-- The outside world after the notifications for a key and a value. -/
def notifiedPair (key_destroy_func value_destroy_func : Option (PDestroyFunc ω))
    (p : ppointer × ppointer) (world : ω) : ω :=
  notified value_destroy_func p.2 (notified key_destroy_func p.1 world)

@[simp] theorem run_destroy (func : Option (PDestroyFunc ω)) (p : ppointer) (s : Mem E ω) :
    (destroy func p).run s = some ((), s.withWorld (notified func p s.world)) := by
  cases func <;> rfl

/-! ## The payload of a node -/

/-- The binding of a node. -/
def Item.pair (x : Item τ) : ppointer × ppointer := (x.key, x.value)

def Item.withPair (x : Item τ) (p : ppointer × ppointer) : Item τ := { x with key := p.1, value := p.2 }

def Item.withTag (x : Item τ) (v : τ) : Item τ := { x with tag := v }

@[simp] theorem Item.pair_withPair (x : Item τ) (p : ppointer × ppointer) : (x.withPair p).pair = p := rfl
@[simp] theorem Item.tag_withPair (x : Item τ) (p : ppointer × ppointer) : (x.withPair p).tag = x.tag := rfl
@[simp] theorem Item.pair_withTag (x : Item τ) (v : τ) : (x.withTag v).pair = x.pair := rfl
@[simp] theorem Item.tag_withTag (x : Item τ) (v : τ) : (x.withTag v).tag = v := rfl

@[simp] theorem Item.withTag_withTag (x : Item τ) (v w : τ) : (x.withTag v).withTag w = x.withTag w := rfl

/-- The bindings of a tree, in order. -/
def pairs (t : AddrTree (Item τ)) : List (ppointer × ppointer) := t.toList.map Item.pair

@[simp] theorem pairs_nil : pairs (.nil : AddrTree (Item τ)) = [] := rfl

@[simp] theorem pairs_node : pairs (.node a l x r) = pairs l ++ x.pair :: pairs r := by
  simp [pairs, AddrTree.toList]

theorem pairs_plug : pairs (Ctx.plug k t) =
    (Ctx.before k).map Item.pair ++ pairs t ++ (Ctx.after k).map Item.pair := by
  simp [pairs, Ctx.toList_plug]

theorem pairs_plug_congr {u : AddrTree (Item τ)} (h : pairs t = pairs u) :
    pairs (Ctx.plug k t) = pairs (Ctx.plug k u) := by
  rw [pairs_plug, pairs_plug, h]

/-- Two places have the same bindings before and after them. -/
structure SameAround (k k' : Ctx (Item τ)) : Prop where
  before : (Ctx.before k).map Item.pair = (Ctx.before k').map Item.pair
  after : (Ctx.after k).map Item.pair = (Ctx.after k').map Item.pair

namespace SameAround
variable {k₁ k₂ k₃ : Ctx (Item τ)}

theorem refl (k : Ctx (Item τ)) : SameAround k k := ⟨rfl, rfl⟩

theorem trans (h₁ : SameAround k₁ k₂) (h₂ : SameAround k₂ k₃) : SameAround k₁ k₃ :=
  ⟨h₁.before.trans h₂.before, h₁.after.trans h₂.after⟩

theorem append (k : Ctx (Item τ)) (h : SameAround k₁ k₂) : SameAround (k ++ k₁) (k ++ k₂) := by
  constructor
  · simp only [Ctx.before_append, List.map_append, h.before]
  · simp only [Ctx.after_append, List.map_append, h.after]

theorem pairs_plug (h : SameAround k₁ k₂) (t : AddrTree (Item τ)) :
    pairs (Ctx.plug k₁ t) = pairs (Ctx.plug k₂ t) := by
  rw [Plibsys.pairs_plug, Plibsys.pairs_plug, h.before, h.after]

end SameAround

theorem Holds.run_setKeyValue (h : Holds N s k (.node a l x r)) (key value : ppointer) :
    ∃ s', (setKeyValue a key value).run s = some ((), s') ∧
      Holds N s' k (.node a l (x.withPair (key, value)) r) ∧ s'.world = s.world := by
  refine ⟨s.modify a fun n => { n with key := key, value := value }, ?_, ?_, rfl⟩
  · simp [setKeyValue, h.get]
  · refine Zip.set h ?_ fun b hb => Mem.get_modify_of_ne hb
    rw [Mem.get_modify_eq _ h.get, N.setKeyValue_cell]
    rfl

theorem Holds.run_replacePair (h : Holds N s k (.node a l x r)) (kd vd : Option (PDestroyFunc ω))
    (key value : ppointer) :
    ∃ s', (replacePair key kd vd value a).run s = some ((), s') ∧
      Holds N s' k (.node a l (x.withPair (key, value)) r) ∧
      s'.world = notifiedPair kd vd x.pair s.world := by
  let s₁ := s.withWorld (notified kd x.key s.world)
  let s₂ := s₁.withWorld (notified vd x.value s₁.world)
  have h₂ : Holds N s₂ k (.node a l x r) := h
  obtain ⟨s', hrun, hs', hw⟩ := h₂.run_setKeyValue key value
  refine ⟨s', ?_, hs', hw⟩
  simp only [s₂, s₁, Mem.world_withWorld] at hrun
  simpa [replacePair, h.get] using hrun

theorem Holds.run_setTag {s : Mem (ParentExt τ) ω} (h : Holds (parentLayout τ) s k (.node a l x r)) (v : τ) :
    ∃ s', (setTag a v).run s = some ((), s') ∧
      Holds (parentLayout τ) s' k (.node a l (x.withTag v) r) ∧ s'.world = s.world := by
  refine ⟨s.modify a fun n => { n with ext := { n.ext with tag := v } }, ?_, ?_, rfl⟩
  · simp [setTag, h.get]
  · refine Zip.set h ?_ fun b hb => Mem.get_modify_of_ne hb
    rw [Mem.get_modify_eq _ h.get]
    rfl

/-- Frame: the other nodes keep their contents. -/
theorem get_of_run_setTag {s s' : Mem (ParentExt τ) ω} {b : ppointer} {v : τ}
    (h : (setTag a v).run s = some ((), s')) (hb : b ≠ a) : s'.get b = s.get b := by
  simp only [setTag, run_assign, Option.map_eq_some_iff, Prod.mk.injEq, true_and] at h
  obtain ⟨n, -, rfl⟩ := h
  exact Mem.get_modify_of_ne hb

theorem Holds.run_setTagS {s : Mem (ParentExt τ) ω} (h : Holds (parentLayout τ) s k (.nodeS d a l x r)) (v : τ) :
    ∃ s', (setTag a v).run s = some ((), s') ∧
      Holds (parentLayout τ) s' k (.nodeS d a l (x.withTag v) r) ∧ s'.world = s.world := by
  cases d <;> exact Holds.run_setTag h v

/-! ## A new leaf -/

theorem Holds.run_graft {n : PTreeBaseNode E} (h : Holds N s k .nil) (h0 : a ≠ 0) (hfree : s.get a = none)
    (hn : n = N.cell 0 0 (Ctx.par k) x) :
    ∃ s', (writeLink a (linkTo k)).run s = some ((), s.hookRoot N k a) ∧
      (newNode a n).run (s.hookRoot N k a) = some ((), s') ∧
      Holds N s' k (.node a .nil x .nil) ∧ s'.world = s.world := by
  refine ⟨(s.hookRoot N k a).store a (some n), run_writeLink h, rfl, ?_, by simp⟩
  have hne : ∀ f ∈ k.head?, f.a ≠ a := by
    intro f hf hfa
    cases k with
    | nil => simp at hf
    | cons g k =>
      cases Option.some.inj hf
      have := h.ctx.1
      rw [hfa, hfree] at this
      simp at this
  have hroot := Mem.root_hookRoot (N := N) (q := a) h.root_eq
  show Zip N.toLayout _ (s.hookRoot N k a).root _ _
  rw [hroot]
  refine Zip.graft h h0 hfree ?_ (fun f hf => ?_) fun b hb hbk => ?_
  · rw [Mem.get_store, if_pos ⟨rfl, h0⟩, hn]
  · rw [Mem.get_store, if_neg fun hc => hne f hf hc.1, Mem.get_hookRoot, Mem.get_hook_head f hf]
  · rw [Mem.get_store, if_neg fun hc => hb hc.1, Mem.get_hookRoot, Mem.get_hook_of_ne hbk]

/-- The link to an empty place is `NULL` already. -/
theorem Holds.hookRoot_null (h : Holds N s k .nil) : s.hookRoot N k NULL = s := by
  cases k with
  | nil =>
    have hroot : s.root = NULL := h.root_eq
    rw [Mem.hookRoot, Mem.withRoot, ← hroot]
  | cons f k =>
    have hget := h.ctx.1
    have hcell : s.cell f.a = some (N.cellS f.side NULL f.sib.ptr (Ctx.par k) f.x) := by
      rw [Mem.get] at hget
      split at hget
      · simp at hget
      · exact hget
    have hsame : (s.cell f.a).map (N.setLink f.side NULL) = s.cell f.a := by
      rw [hcell, Option.map_some, N.setLink_cellS]
    rw [Mem.hookRoot, Mem.modify, Mem.store, hsame, Function.update_eq_self]

theorem Holds.run_writeLink_null (h : Holds N s k .nil) : (writeLink NULL (linkTo k)).run s = some ((), s) := by
  rw [run_writeLink h, h.hookRoot_null]

/-! ## The node to be removed -/

theorem Holds.run_onlyChild (h : Holds N s k (.nodeS d a .nil x t)) :
    (onlyChild a).run s = some (t.ptr, s) := by
  cases d with
  | left =>
    have hg := h.get
    simp [onlyChild, hg]
  | right =>
    have hg := h.get
    by_cases ht : t = .nil
    · subst ht
      simp [onlyChild, hg]
    · have h0 : t.ptr ≠ 0 := h.left.ne_null ht
      simp [onlyChild, hg, h0]

theorem exists_nodeS (ht : t ≠ .nil) (d : Side) : ∃ a l x r, t = .nodeS d a l x r := by
  cases t with
  | nil => exact absurd rfl ht
  | node a l x r =>
    cases d
    · exact ⟨a, l, x, r, rfl⟩
    · exact ⟨a, r, x, l, rfl⟩

/-- A node with at most one child. -/
theorem exists_nodeS_nil {l r : AddrTree (Item τ)} (h : l = .nil ∨ r = .nil) :
    ∃ d u, AddrTree.node a l x r = .nodeS d a .nil x u := by
  rcases h with rfl | rfl
  · exact ⟨.left, r, rfl⟩
  · exact ⟨.right, l, rfl⟩

theorem Holds.run_markNode_self (h : Holds N s k (.node a l x r)) (hlr : l = .nil ∨ r = .nil) :
    (markNode fuel a).run s = some (a, s) := by
  have hg := h.get
  have hl := h.left.ptr_eq_null
  have hr := h.right.ptr_eq_null
  rcases hlr with rfl | rfl <;> simp [markNode, hg]

/-- **A node with two children** gets the binding of its predecessor, which is to be removed
    instead. -/
theorem Holds.run_markNode_prev (h : Holds N s k (.node a l x r)) (hl : l ≠ .nil) (hr : r ≠ .nil)
    (hfuel : l.size ≤ fuel) :
    ∃ s' k₁ b l' y, (markNode fuel a).run s = some (b, s') ∧
      Ctx.plug k₁ (.node b l' y .nil) = l ∧ Ctx.after k₁ = [] ∧
      Holds N s' (k₁ ++ ⟨.left, a, x.withPair y.pair, r⟩ :: k) (.node b l' y .nil) ∧
      s'.world = s.world := by
  obtain ⟨k₁, b, l', y, hmost, hplug, hafter⟩ := AddrTree.rightmost_spec hl (⟨.left, a, x, r⟩ :: k)
  have hprev := run_findRightmost h.left hl hfuel
  rw [hmost] at hprev
  have hb : Holds N s (k₁ ++ ⟨.left, a, x, r⟩ :: k) (.node b l' y .nil) := zip_append.2 (hplug ▸ h.left)
  obtain ⟨s', hset, hs', hw⟩ := h.run_setKeyValue y.key y.value
  refine ⟨s', k₁, b, l', y, ?_, hplug, hafter, zip_append.2 (hplug ▸ hs'.left), hw⟩
  have hg := h.get
  have hl0 : l.ptr ≠ 0 := h.left.ne_null hl
  have hr0 : r.ptr ≠ 0 := h.right.ne_null hr
  simp [markNode, hg, hl0, hr0, hprev, hb.get, hset]

/-! ## Removal -/

theorem Holds.run_freeNode {b : ppointer} {n : PTreeBaseNode E} (h : Holds N s k t)
    (kd vd : Option (PDestroyFunc ω)) (hb : s.get b = some n) (hbt : b ∉ t.addrs) (hbk : b ∉ Ctx.addrs k) :
    ∃ s', (freeNode kd vd b).run s = some ((), s') ∧ Holds N s' k t ∧
      s'.world = notifiedPair kd vd (n.key, n.value) s.world := by
  let s₁ := s.withWorld (notified kd n.key s.world)
  let s₂ := s₁.withWorld (notified vd n.value s₁.world)
  refine ⟨s₂.store b none, by simp [freeNode, hb, s₁, s₂], ?_, rfl⟩
  refine Zip.congr (show Holds N s₂ k t from h) fun c hc => ?_
  rw [Mem.get_store, if_neg]
  rintro ⟨rfl, -⟩
  exact hc.elim hbt hbk

theorem Holds.nodup_node (h : Holds N s k (.nodeS d a l x r)) :
    a ∉ l.addrs ∧ a ∉ r.addrs ∧ a ∉ Ctx.addrs k := by
  have := h.nodup_nodeS
  simp only [List.nodup_cons, List.mem_append, not_or] at this
  exact this.2.1

/-- The first step of a removal: the node is bypassed. -/
theorem Holds.run_replaceNode {s : Mem (ParentExt τ) ω}
    (h : Holds (parentLayout τ) s k (.nodeS d a .nil x t)) :
    (replaceNode a t.ptr).run s = some (Ctx.par k, s.hookRoot (parentLayout τ) k t.ptr) := by
  have hroot := h.root_eq
  have hooked := h.hooked (AddrTree.nodeS_ne_nil _ _ _ _ _)
  rw [AddrTree.ptr_nodeS] at hroot hooked
  cases k with
  | nil =>
    simp only [replaceNode, StateT.run_bind, run_getRoot, Option.bind_eq_bind, Option.bind_some,
      if_pos (show a = s.root from hroot.symm), run_setRoot]
    rfl
  | cons f k =>
    have hne : a ≠ s.root := by
      intro ha
      exact h.nodup_node.2.2 (ha.trans hroot ▸ Ctx.root_mem f k a)
    obtain ⟨-, hsib, r, y, hf⟩ := hooked f rfl
    have hpar : (parent a).run s = some (f.a, s) := by
      rw [run_parent, h.getS, Option.map_some, parent_cellS]
      rfl
    simp only [replaceNode, StateT.run_bind, run_getRoot, Option.bind_eq_bind, Option.bind_some,
      if_neg hne, hpar, run_relink hf hsib]
    rfl

/-- The memory after the bypass and, if there is a child, the update of its parent. -/
theorem Holds.bypass {s : Mem (ParentExt τ) ω} (h : Holds (parentLayout τ) s k (.nodeS d a .nil x t)) :
    Holds (parentLayout τ) ((s.hookRoot (parentLayout τ) k t.ptr).adopt t.ptr (Ctx.par k)) k t ∧
      ((s.hookRoot (parentLayout τ) k t.ptr).adopt t.ptr (Ctx.par k)).get a =
        some ((parentLayout τ).cellS d 0 t.ptr (Ctx.par k) x) := by
  have hroot := Mem.root_hookRoot (N := parentLayout τ) (q := t.ptr) h.root_eq
  obtain ⟨hat, hak, htk, hf⟩ := h.child_apart
  constructor
  · show Zip (parentLayout τ).toLayout _ (Mem.adopt _ _ _).root _ _
    rw [Mem.root_adopt, hroot]
    refine Zip.unlink h (fun ht => ?_) (fun f hfk => ?_) fun b _ hbt hbk => ?_
    · obtain ⟨h0, hk⟩ := htk ht
      rw [Mem.get_adopt_self h0, Mem.get_hookRoot, Mem.get_hook_of_ne hk]
    · rw [Mem.get_adopt_of_ne (hf f hfk).2.2, Mem.get_hookRoot, Mem.get_hook_head f hfk]
    · rw [Mem.get_adopt_of_ne hbt, Mem.get_hookRoot, Mem.get_hook_of_ne hbk]
  · rw [Mem.get_adopt_of_ne hat, Mem.get_hookRoot, Mem.get_hook_of_ne hak, h.getS]
    rfl

/-- **The bypass of a node**, with the update of the parent of its child. -/
theorem Holds.run_unlink {s : Mem (ParentExt τ) ω} (h : Holds (parentLayout τ) s k (.nodeS d a .nil x t)) :
    ∃ s₁ s₂, (replaceNode a t.ptr).run s = some (Ctx.par k, s₁) ∧
      (t ≠ .nil → (setParent t.ptr (Ctx.par k)).run s₁ = some ((), s₂)) ∧ (t = .nil → s₂ = s₁) ∧
      Holds (parentLayout τ) s₂ k t ∧ s₂.get a = some ((parentLayout τ).cellS d 0 t.ptr (Ctx.par k) x) ∧
      s₂.world = s.world := by
  obtain ⟨h', hg⟩ := h.bypass
  refine ⟨_, _, h.run_replaceNode, fun ht => ?_, fun ht => ?_, h', hg, by simp⟩
  · have h0 : t.ptr ≠ 0 := h'.ne_null ht
    have hsome := h'.sub.isSome_ptr.resolve_left ht
    rw [Mem.get_adopt_self h0, Option.isSome_map] at hsome
    obtain ⟨n, hn⟩ := Option.isSome_iff_exists.1 hsome
    rw [run_setParent, hn, Mem.adopt, if_neg h0]
    rfl
  · rw [ht, Mem.adopt, AddrTree.ptr_nil, if_pos rfl]

/-- The bypassed node is freed. -/
theorem Holds.run_freeBypassed {s₁ : Mem E ω} {u : AddrTree (Item τ)} {n f p : ppointer}
    (h : Holds N s k (.nodeS d a .nil x t)) (kd vd : Option (PDestroyFunc ω)) (h₁ : Holds N s₁ k u)
    (hu : u.addrs = t.addrs)
    (hg : s₁.get a = some (N.cellS d n f p x)) :
    ∃ s', (freeNode kd vd a).run s₁ = some ((), s') ∧ Holds N s' k u ∧
      s'.world = notifiedPair kd vd x.pair s₁.world := by
  obtain ⟨-, hat, hak⟩ := h.nodup_node
  obtain ⟨s', hrun, h', hw⟩ := h₁.run_freeNode kd vd hg (hu ▸ hat) hak
  refine ⟨s', hrun, h', ?_⟩
  rw [hw, N.cellS_key, N.cellS_value]
  rfl

/-- A node without children is bypassed and freed. -/
theorem Holds.run_unlinkLeaf {s : Mem (ParentExt τ) ω} (h : Holds (parentLayout τ) s k (.nodeS d a .nil x .nil))
    (kd vd : Option (PDestroyFunc ω)) :
    ∃ s₁ s', (replaceNode a NULL).run s = some (Ctx.par k, s₁) ∧ (freeNode kd vd a).run s₁ = some ((), s') ∧
      Holds (parentLayout τ) s' [] (Ctx.plug k .nil) ∧ s'.world = notifiedPair kd vd x.pair s.world := by
  obtain ⟨s₁, s₂, hrep, -, hs, h₂, hg₂, w₂⟩ := h.run_unlink
  obtain rfl := hs rfl
  obtain ⟨s', hfree, h', w'⟩ := h.run_freeBypassed kd vd h₂ rfl hg₂
  exact ⟨s₂, s', hrep, hfree, zip_plug.1 h', by rw [w', w₂]⟩

/-! ## The effect on the bindings -/

section
variable (compare_func : PCompareDataFunc) (kd vd : Option (PDestroyFunc ω)) (key value : ppointer)

/-- The place of a key among the bindings: those before it are smaller, those after it are
    larger. -/
structure KeyPlace (bef aft : List (ppointer × ppointer)) : Prop where
  before : ∀ p ∈ bef, 0 < compare_func key p.1
  after : ∀ p ∈ aft, compare_func key p.1 < 0

/-- What an insertion does to the bindings and the outside world, and what it returns. -/
inductive InsertEffect (ps : List (ppointer × ppointer)) (w : ω) :
    List (ppointer × ppointer) → ω → Bool → Prop
  | replaced {bef aft old} : KeyPlace compare_func key bef aft → ps = bef ++ old :: aft →
      compare_func key old.1 = 0 →
      InsertEffect ps w (bef ++ (key, value) :: aft) (notifiedPair kd vd old w) false
  | added {bef aft} : KeyPlace compare_func key bef aft → ps = bef ++ aft →
      InsertEffect ps w (bef ++ (key, value) :: aft) w true

/-- The key is in a node that has two children. -/
def InTwoChildNode (t : AddrTree (Item τ)) : Prop :=
  match (t.search (keyCmp compare_func key) []).2 with
  | .nil => False
  | .node _ l _ r => l ≠ .nil ∧ r ≠ .nil

/-- What a removal does.  The notifications are for the binding of the node that is freed: the
    one removed, or the one before it if the key is in a node with two children. -/
inductive RemoveEffect (t : AddrTree (Item τ)) (w : ω) : List (ppointer × ppointer) → ω → Bool → Prop
  | absent {bef aft} : KeyPlace compare_func key bef aft → pairs t = bef ++ aft →
      RemoveEffect t w (pairs t) w false
  | removed {bef aft old freed} : KeyPlace compare_func key bef aft → pairs t = bef ++ old :: aft →
      compare_func key old.1 = 0 → (¬ InTwoChildNode compare_func key t → freed = old) →
      (InTwoChildNode compare_func key t → bef.getLast? = some freed) →
      RemoveEffect t w (bef ++ aft) (notifiedPair kd vd freed w) true

variable {compare_func key}

/-- The search ends at the place of the key. -/
theorem keyPlace_search {t u : AddrTree (Item τ)} {k : Ctx (Item τ)}
    (hs : t.search (keyCmp compare_func key) [] = (k, u))
    (hd : AddrTree.Directed (fun p => compare_func key p.1) (pairs t)) :
    KeyPlace compare_func key ((Ctx.before k).map Item.pair) ((Ctx.after k).map Item.pair) := by
  have hd' : AddrTree.Directed (keyCmp compare_func key) t.toList := List.pairwise_map.1 hd
  obtain ⟨hb, ha⟩ := AddrTree.search_sides (k := []) hd' (by simp [Ctx.before]) (by simp [Ctx.after])
  rw [hs] at hb ha
  constructor
  · intro p hp
    obtain ⟨x, hx, rfl⟩ := List.mem_map.1 hp
    exact hb x hx
  · intro p hp
    obtain ⟨x, hx, rfl⟩ := List.mem_map.1 hp
    exact ha x hx

theorem plug_of_search {t u : AddrTree (Item τ)} {k : Ctx (Item τ)}
    (hs : t.search (keyCmp compare_func key) [] = (k, u)) : Ctx.plug k u = t := by
  have := AddrTree.plug_search (keyCmp compare_func key) t []
  rwa [hs] at this

/-- The place of a key that occurs. -/
theorem keyPlace_of_eq {bef aft : List (ppointer × ppointer)} {old : ppointer × ppointer}
    (hd : AddrTree.Directed (fun p => compare_func key p.1) (bef ++ old :: aft))
    (h0 : compare_func key old.1 = 0) : KeyPlace compare_func key bef aft := by
  obtain ⟨-, haft, hbef⟩ := List.pairwise_append.1 hd
  constructor
  · intro p hp
    by_contra hn
    have : compare_func key old.1 < 0 := hbef p hp old (by simp) (Int.not_lt.1 hn)
    omega
  · intro p hp
    exact (List.pairwise_cons.1 haft).1 p hp (Int.le_of_eq h0)

/-- The bindings around a node. -/
theorem pairs_plug_node : pairs (Ctx.plug k (.node a l x r)) =
    ((Ctx.before k).map Item.pair ++ pairs l) ++ x.pair :: (pairs r ++ (Ctx.after k).map Item.pair) := by
  simp [pairs_plug]

variable {kd vd value}

theorem insertEffect_replaced {t : AddrTree (Item τ)} {k : Ctx (Item τ)} {w : ω}
    (hs : t.search (keyCmp compare_func key) [] = (k, .node a l x r))
    (hd : AddrTree.Directed (fun p => compare_func key p.1) (pairs t)) :
    InsertEffect compare_func kd vd key value (pairs t) w
      (pairs (Ctx.plug k (.node a l (x.withPair (key, value)) r))) (notifiedPair kd vd x.pair w) false := by
  have h0 : compare_func key x.pair.1 = 0 :=
    AddrTree.search_hit (g := keyCmp compare_func key) (congrArg Prod.snd hs)
  have ht := plug_of_search hs
  rw [← ht, pairs_plug_node] at hd ⊢
  rw [pairs_plug_node]
  exact .replaced (keyPlace_of_eq hd h0) rfl h0

theorem insertEffect_added {t u : AddrTree (Item τ)} {k : Ctx (Item τ)} {w : ω}
    (hs : t.search (keyCmp compare_func key) [] = (k, .nil))
    (hd : AddrTree.Directed (fun p => compare_func key p.1) (pairs t))
    (hu : pairs u = pairs (Ctx.plug k (.node a .nil x .nil))) (hx : x.pair = (key, value)) :
    InsertEffect compare_func kd vd key value (pairs t) w (pairs u) w true := by
  have hp := keyPlace_search hs hd
  have ht := plug_of_search hs
  rw [hu, pairs_plug_node, hx, ← ht]
  refine .added ?_ (by simp [pairs_plug])
  simpa using hp

theorem removeEffect_self {t u : AddrTree (Item τ)} {k : Ctx (Item τ)} {w : ω}
    (hs : t.search (keyCmp compare_func key) [] = (k, .nodeS d a .nil x u))
    (hd : AddrTree.Directed (fun p => compare_func key p.1) (pairs t)) :
    RemoveEffect compare_func kd vd key t w (pairs (Ctx.plug k u)) (notifiedPair kd vd x.pair w) true := by
  have ht := plug_of_search hs
  have htwo : ¬ InTwoChildNode compare_func key t := by
    cases d <;> simp [InTwoChildNode, hs, AddrTree.nodeS]
  have h0 : compare_func key x.pair.1 = 0 := by
    cases d <;> exact AddrTree.search_hit (g := keyCmp compare_func key) (congrArg Prod.snd hs)
  have hps : ∃ bef aft, pairs t = bef ++ x.pair :: aft ∧ pairs (Ctx.plug k u) = bef ++ aft := by
    rw [← ht]
    cases d
    · exact ⟨_, _, pairs_plug_node, by simp [pairs_plug]⟩
    · exact ⟨_, _, pairs_plug_node, by simp [pairs_plug]⟩
  obtain ⟨bef, aft, hps, hpu⟩ := hps
  rw [hpu]
  exact .removed (keyPlace_of_eq (hps ▸ hd) h0) hps h0 (fun _ => rfl) fun h => absurd h htwo

theorem removeEffect_prev {t l' : AddrTree (Item τ)} {k k₁ : Ctx (Item τ)} {w : ω} {b : ℕ} {y : Item τ}
    (hs : t.search (keyCmp compare_func key) [] = (k, .node a l x r))
    (hd : AddrTree.Directed (fun p => compare_func key p.1) (pairs t)) (hl : l ≠ .nil) (hr : r ≠ .nil)
    (hplug : Ctx.plug k₁ (.node b l' y .nil) = l) (hafter : Ctx.after k₁ = []) :
    RemoveEffect compare_func kd vd key t w (pairs (Ctx.plug (k₁ ++ ⟨.left, a, x.withPair y.pair, r⟩ :: k) l'))
      (notifiedPair kd vd y.pair w) true := by
  have ht := plug_of_search hs
  have htwo : InTwoChildNode compare_func key t := by simp [InTwoChildNode, hs, hl, hr]
  have h0 : compare_func key x.pair.1 = 0 :=
    AddrTree.search_hit (g := keyCmp compare_func key) (congrArg Prod.snd hs)
  have hps : pairs t =
    ((Ctx.before k).map Item.pair ++ pairs l) ++ x.pair :: (pairs r ++ (Ctx.after k).map Item.pair) := by
    rw [← ht]
    exact pairs_plug_node
  have hpl : pairs l = (Ctx.before k₁).map Item.pair ++ pairs l' ++ [y.pair] := by
    rw [← hplug, pairs_plug, hafter]
    simp
  have hpu : pairs (Ctx.plug (k₁ ++ ⟨.left, a, x.withPair y.pair, r⟩ :: k) l') =
      ((Ctx.before k).map Item.pair ++ pairs l) ++ (pairs r ++ (Ctx.after k).map Item.pair) := by
    rw [hpl, pairs_plug, Ctx.before_append, Ctx.after_append, hafter]
    simp [Ctx.before, Ctx.after, pairs]
  rw [hpu]
  refine .removed (keyPlace_of_eq (hps ▸ hd) h0) hps h0 (fun h => absurd htwo h) fun _ => ?_
  simp [hpl]

variable (kd vd) in
/-- **The choice of the node to be removed.**  It has at most one child, its removal is the
    removal of the key, and up to a binding the tree is unchanged. -/
theorem Holds.run_markNode {t : AddrTree (Item τ)} (h : Holds N s [] t)
    (hs : t.search (keyCmp compare_func key) [] = (k, .node a l x r))
    (hd : AddrTree.Directed (fun p => compare_func key p.1) (pairs t)) (hfuel : t.size ≤ fuel) :
    ∃ s' k' d b u y x', (markNode fuel a).run s = some (b, s') ∧ Holds N s' k' (.nodeS d b .nil y u) ∧
      Ctx.plug k' (.nodeS d b .nil y u) = Ctx.plug k (.node a l x' r) ∧ x'.tag = x.tag ∧
      RemoveEffect compare_func kd vd key t s.world (pairs (Ctx.plug k' u))
        (notifiedPair kd vd y.pair s'.world) true ∧
      k'.length < t.size := by
  have hplug := plug_of_search hs
  have hk : Holds N s k (.node a l x r) := Zip.refocus h (by simpa [Ctx.plug] using hplug)
  by_cases hlr : l = .nil ∨ r = .nil
  · obtain ⟨d, u, hu⟩ := exists_nodeS_nil (a := a) (x := x) hlr
    refine ⟨s, k, d, a, u, x, x, hk.run_markNode_self hlr, hu ▸ hk, by rw [hu], rfl, ?_, ?_⟩
    · exact removeEffect_self (hu ▸ hs) hd
    · rw [← hplug]
      exact Ctx.length_lt_size (by simp)
  · obtain ⟨hl, hr⟩ := not_or.1 hlr
    have hlfuel : l.size ≤ fuel := by
      have := Ctx.size_plug k (.node a l x r)
      rw [hplug, AddrTree.size] at this
      omega
    obtain ⟨s', k₁, b, l', y, hrun, hl', hafter, h', hw⟩ := hk.run_markNode_prev hl hr hlfuel
    have hplug' : Ctx.plug (k₁ ++ ⟨.left, a, x.withPair y.pair, r⟩ :: k) (.node b l' y .nil) =
        Ctx.plug k (.node a l (x.withPair y.pair) r) := by
      rw [Ctx.plug_append]
      simp [Ctx.plug, Frame.plug, AddrTree.nodeS, hl']
    refine ⟨s', _, .right, b, l', y, x.withPair y.pair, hrun, h', hplug', rfl, ?_, ?_⟩
    · rw [hw]
      exact removeEffect_prev hs hd hl hr hl' hafter
    · rw [← hplug, Ctx.size_plug, AddrTree.size, ← AddrTree.size.eq_2 a l (x.withPair y.pair) r,
        ← Ctx.size_plug, ← hplug']
      exact Ctx.length_lt_size (by simp)

theorem removeEffect_absent {t : AddrTree (Item τ)} {w : ω}
    (hs : t.search (keyCmp compare_func key) [] = (k, .nil))
    (hd : AddrTree.Directed (fun p => compare_func key p.1) (pairs t)) :
    RemoveEffect compare_func kd vd key t w (pairs t) w false := by
  have ht := plug_of_search hs
  refine .absent (keyPlace_search hs hd) ?_
  rw [← ht, pairs_plug]
  simp

end

end Plibsys
