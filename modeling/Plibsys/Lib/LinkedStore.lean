/-
  Trees linked by pointers in a store.

  `Zip L c root k t` says that the store `c` holds the tree `t` under the context
  `k`, with the cell contents prescribed by the layout `L`; as the parent pointer is
  part of a layout, it also says that the parent pointers match the child links.

  * `zip_cons` moves the focus along an edge, `zip_plug` to the root;
  * `Zip.set`, `Zip.replace`, `Zip.rotate` and `Zip.rotate₂` say which changes of the
    store turn the tree at the focus into another one: a new payload, another
    subtree, a single and a double rotation.
-/
import Plibsys.Lib.LinkedTree

namespace Linked

variable {C α : Type}

open AddrTree

/-- How a node is laid out in a cell: its links, the address of its parent and its
    payload.  A layout without parent pointers ignores the parent. -/
structure Layout (C α : Type) where
  cell : (left right parent : ℕ) → α → C
  left : C → ℕ
  right : C → ℕ
  setLeft : ℕ → C → C
  setRight : ℕ → C → C
  setParent : ℕ → C → C
  left_cell : ∀ l r p x, left (cell l r p x) = l
  right_cell : ∀ l r p x, right (cell l r p x) = r
  setLeft_cell : ∀ l l' r p x, setLeft l' (cell l r p x) = cell l' r p x
  setRight_cell : ∀ l r r' p x, setRight r' (cell l r p x) = cell l r' p x
  setParent_cell : ∀ l r p p' x, setParent p' (cell l r p x) = cell l r p' x

namespace Layout
variable (L : Layout C α)

attribute [simp] left_cell right_cell setLeft_cell setRight_cell setParent_cell

/-- The cell with the link `near` on side `d` and `far` on the other side. -/
def cellS (d : Side) (near far p : ℕ) (x : α) : C :=
  match d with
  | .left => L.cell near far p x
  | .right => L.cell far near p x

def setLink (d : Side) (q : ℕ) : C → C :=
  match d with
  | .left => L.setLeft q
  | .right => L.setRight q

@[simp] theorem setLink_cellS (d : Side) (n n' f p : ℕ) (x : α) :
    L.setLink d n' (L.cellS d n f p x) = L.cellS d n' f p x := by
  cases d <;> simp [setLink, cellS]

@[simp] theorem setParent_cellS (d : Side) (n f p p' : ℕ) (x : α) :
    L.setParent p' (L.cellS d n f p x) = L.cellS d n f p' x := by
  cases d <;> simp [cellS]

end Layout

variable {L : Layout C α} {c c' : ℕ → Option C}

/-! ## Subtrees and contexts in a store -/

/-- The store holds the tree below a node at address `p`. -/
def Rep (L : Layout C α) (c : ℕ → Option C) : ℕ → AddrTree α → Prop
  | _, nil => True
  | p, node a l x r => c a = some (L.cell l.ptr r.ptr p x) ∧ Rep L c a l ∧ Rep L c a r

/-- The store holds the context, with `h` linked in its hole. -/
def RepCtx (L : Layout C α) (c : ℕ → Option C) : ℕ → Ctx α → Prop
  | _, [] => True
  | h, f :: k => c f.a = some (L.cellS f.side h f.sib.ptr (Ctx.par k) f.x) ∧
      Rep L c f.a f.sib ∧ RepCtx L c f.a k

theorem rep_nodeS {d : Side} {p a : ℕ} {t u : AddrTree α} {x : α} :
    Rep L c p (nodeS d a t x u) ↔
      c a = some (L.cellS d t.ptr u.ptr p x) ∧ Rep L c a t ∧ Rep L c a u := by
  cases d
  · exact Iff.rfl
  · exact and_congr_right fun _ => and_comm

theorem Rep.isSome_ptr {p : ℕ} {t : AddrTree α} (h : Rep L c p t) : t = nil ∨ (c t.ptr).isSome := by
  cases t with
  | nil => exact .inl rfl
  | node a l x r => exact .inr (by simp [h.1])

/-- Frame: a subtree only depends on its own cells. -/
theorem Rep.congr {p : ℕ} {t : AddrTree α} (h : Rep L c p t) (hc : ∀ a ∈ t.addrs, c' a = c a) :
    Rep L c' p t := by
  induction t generalizing p with
  | nil => trivial
  | node b l x r ihl ihr =>
    obtain ⟨hb, hl, hr⟩ := h
    exact ⟨(hc b (by simp [addrs])).trans hb,
      ihl hl fun a ha => hc a (by simp [addrs, ha]), ihr hr fun a ha => hc a (by simp [addrs, ha])⟩

theorem RepCtx.congr {h : ℕ} {k : Ctx α} (hk : RepCtx L c h k) (hc : ∀ a ∈ Ctx.addrs k, c' a = c a) :
    RepCtx L c' h k := by
  induction k generalizing h with
  | nil => trivial
  | cons f k ih =>
    obtain ⟨hf, hs, hk⟩ := hk
    exact ⟨(hc _ (by simp [Ctx.addrs])).trans hf, hs.congr fun a ha => hc a (by simp [Ctx.addrs, ha]),
      ih hk fun a ha => hc a (by simp [Ctx.addrs, ha])⟩

theorem Rep.isSome {p a : ℕ} {t : AddrTree α} (h : Rep L c p t) (ha : a ∈ t.addrs) : (c a).isSome := by
  induction t generalizing p with
  | nil => simp [addrs] at ha
  | node b l x r ihl ihr =>
    obtain ⟨hb, hl, hr⟩ := h
    simp only [addrs, List.mem_cons, List.mem_append] at ha
    rcases ha with rfl | ha | ha
    · simp [hb]
    · exact ihl hl ha
    · exact ihr hr ha

theorem RepCtx.isSome {h a : ℕ} {k : Ctx α} (hk : RepCtx L c h k) (ha : a ∈ Ctx.addrs k) :
    (c a).isSome := by
  induction k generalizing h with
  | nil => simp [Ctx.addrs] at ha
  | cons f k ih =>
    obtain ⟨hf, hs, hk⟩ := hk
    simp only [Ctx.addrs, List.mem_cons, List.mem_append] at ha
    rcases ha with rfl | ha | ha
    · simp [hf]
    · exact hs.isSome ha
    · exact ih hk ha

/-- A subtree is hung below another parent. -/
theorem Rep.reparent {p p' : ℕ} {t : AddrTree α} (h : Rep L c p t) (hnd : t.addrs.Nodup)
    (hp : t ≠ nil → c' t.ptr = (c t.ptr).map (L.setParent p'))
    (hc : ∀ a ∈ t.addrs, a ≠ t.ptr → c' a = c a) : Rep L c' p' t := by
  cases t with
  | nil => trivial
  | node b l x r =>
    obtain ⟨hb, hl, hr⟩ := h
    have hnb := (List.nodup_cons.1 hnd).1
    have hsub : ∀ a ∈ l.addrs ++ r.addrs, c' a = c a := fun a ha =>
      hc a (List.mem_cons_of_mem _ ha) fun he => hnb (by rw [← ptr_node b l r x, ← he]; exact ha)
    refine ⟨?_, hl.congr fun a ha => hsub a (List.mem_append_left _ ha),
      hr.congr fun a ha => hsub a (List.mem_append_right _ ha)⟩
    have := hp (by simp)
    rw [ptr_node, hb] at this
    simpa using this

/-- Another subtree is linked in the hole. -/
theorem RepCtx.rehole {h h' : ℕ} {k : Ctx α} (hk : RepCtx L c h k) (hnd : (Ctx.addrs k).Nodup)
    (hp : ∀ f ∈ k.head?, c' f.a = (c f.a).map (L.setLink f.side h'))
    (hc : ∀ a ∈ Ctx.addrs k, a ≠ Ctx.par k → c' a = c a) : RepCtx L c' h' k := by
  cases k with
  | nil => trivial
  | cons f k =>
    obtain ⟨hf, hs, hk⟩ := hk
    have hnf := (List.nodup_cons.1 hnd).1
    have hsub : ∀ a ∈ f.sib.addrs ++ Ctx.addrs k, c' a = c a := fun a ha =>
      hc a (List.mem_cons_of_mem _ ha) fun he => hnf (by rw [← show a = f.a from he]; exact ha)
    refine ⟨?_, hs.congr fun a ha => hsub a (List.mem_append_left _ ha),
      hk.congr fun a ha => hsub a (List.mem_append_right _ ha)⟩
    have := hp f (by simp)
    rw [hf] at this
    simpa using this

/-! ## The focus -/

/-- The store `c` with root pointer `root` holds the tree `t` under the context `k`. -/
structure Zip (L : Layout C α) (c : ℕ → Option C) (root : ℕ) (k : Ctx α) (t : AddrTree α) : Prop where
  ctx : RepCtx L c t.ptr k
  sub : Rep L c (Ctx.par k) t
  root_eq : root = Ctx.root k t.ptr
  nodup : (0 :: (t.addrs ++ Ctx.addrs k)).Nodup

variable {root : ℕ} {k : Ctx α} {t : AddrTree α}

/-- The focus moves along an edge. -/
theorem zip_cons {f : Frame α} : Zip L c root (f :: k) t ↔ Zip L c root k (f.plug t) := by
  have hperm : (t.addrs ++ Ctx.addrs (f :: k)).Perm ((f.plug t).addrs ++ Ctx.addrs k) := by
    refine List.perm_middle.trans ?_
    rw [← List.append_assoc]
    exact ((addrs_nodeS f.side f.a t f.sib f.x).symm.append_right _)
  constructor
  · rintro ⟨⟨hf, hs, hk⟩, ht, hr, hn⟩
    refine ⟨by simpa [Frame.plug] using hk, rep_nodeS.2 ⟨hf, ht, hs⟩, ?_, (hperm.cons 0).nodup_iff.1 hn⟩
    simpa [Frame.plug, Ctx.root] using hr
  · rintro ⟨hk, ht, hr, hn⟩
    obtain ⟨hf, ht, hs⟩ := rep_nodeS.1 ht
    refine ⟨⟨hf, hs, by simpa [Frame.plug] using hk⟩, ht, ?_, (hperm.cons 0).nodup_iff.2 hn⟩
    simpa [Frame.plug, Ctx.root] using hr

theorem zip_append {k' : Ctx α} : Zip L c root (k' ++ k) t ↔ Zip L c root k (Ctx.plug k' t) := by
  induction k' generalizing t with
  | nil => exact Iff.rfl
  | cons f k' ih => exact zip_cons.trans ih

theorem zip_plug : Zip L c root k t ↔ Zip L c root [] (Ctx.plug k t) := by
  rw [← zip_append, List.append_nil]

/-- The focus moves to another place of the same tree. -/
theorem Zip.refocus {k' : Ctx α} {t' : AddrTree α} (h : Zip L c root k t)
    (he : Ctx.plug k' t' = Ctx.plug k t) : Zip L c root k' t' :=
  zip_plug.2 (he ▸ zip_plug.1 h)

/-! ## Distinct addresses -/

theorem AddrTree.ptr_mem_cons (t : AddrTree α) : t.ptr ∈ 0 :: t.addrs := by
  cases t <;> simp [addrs]

theorem AddrTree.count_addrs_nodeS (d : Side) (a b : ℕ) (t u : AddrTree α) (x : α) :
    (nodeS d a t x u).addrs.count b = t.addrs.count b + u.addrs.count b + if a = b then 1 else 0 := by
  rw [(addrs_nodeS d a t u x).count_eq, List.count_cons, List.count_append]
  simp

theorem Ctx.par_mem_cons (k : Ctx α) : Ctx.par k ∈ 0 :: Ctx.addrs k := by
  cases k <;> simp [Ctx.par, Ctx.addrs]

theorem Ctx.root_mem (f : Frame α) (k : Ctx α) (p : ℕ) : Ctx.root (f :: k) p ∈ Ctx.addrs (f :: k) := by
  induction k generalizing f p with
  | nil => simp [Ctx.root, Ctx.addrs]
  | cons g k ih =>
    have := ih g f.a
    rw [Ctx.root, Ctx.addrs]
    exact List.mem_cons_of_mem _ (List.mem_append_right _ this)

namespace Zip

variable {d : Side} {a p q r : ℕ} {A B D E : AddrTree α} {x y z x' y' z' : α}

/-- The addresses of a node, its near child, its far child and the context. -/
theorem nodup_nodeS (h : Zip L c root k (nodeS d p A x B)) :
    (0 :: p :: (A.addrs ++ (B.addrs ++ Ctx.addrs k))).Nodup := by
  have := (((addrs_nodeS d p A B x).append_right (Ctx.addrs k)).cons 0).nodup_iff.1 h.nodup
  simpa only [List.cons_append, List.append_assoc] using this

/-- The addresses that the bypass of a node touches are distinct. -/
theorem child_apart (h : Zip L c root k (nodeS d p A x B)) :
    p ≠ B.ptr ∧ p ≠ Ctx.par k ∧ (B ≠ nil → B.ptr ≠ 0 ∧ B.ptr ≠ Ctx.par k) ∧
      ∀ f ∈ k.head?, f.a = Ctx.par k ∧ f.a ≠ 0 ∧ f.a ≠ B.ptr := by
  have hnd := h.nodup_nodeS
  have hBp := B.ptr_mem_cons
  have hkp := Ctx.par_mem_cons k
  simp only [List.nodup_cons, List.nodup_append, List.mem_cons, List.mem_append, not_or] at hnd hBp hkp
  refine ⟨by grind only, by grind only, fun hB => ?_, fun f hf => ?_⟩
  · have := ptr_mem hB
    exact ⟨by grind only, by grind only⟩
  · cases k with
    | nil => simp at hf
    | cons g k =>
      cases Option.some.inj hf
      simp only [Ctx.addrs, Ctx.par, List.mem_cons] at hnd hkp ⊢
      exact ⟨trivial, by grind only, by grind only⟩

/-- The addresses at a node whose far child is a node. -/
theorem nodup_far (h : Zip L c root k (nodeS d p A x (nodeS d q B y D))) :
    (0 :: p :: q :: (A.addrs ++ (B.addrs ++ (D.addrs ++ Ctx.addrs k)))).Nodup := by
  refine List.Perm.nodup_iff (.cons 0 (.cons p ?_)) |>.1 h.nodup_nodeS
  refine (((addrs_nodeS d q B D y).append_right _).append_left A.addrs).trans ?_
  simp only [List.cons_append, List.append_assoc]
  exact List.perm_middle

/-- The addresses that a single rotation touches are distinct. -/
theorem far_apart (h : Zip L c root k (nodeS d p A x (nodeS d q B y D))) :
    p ≠ q ∧ p ≠ B.ptr ∧ q ≠ B.ptr ∧ p ≠ Ctx.par k ∧ q ≠ Ctx.par k ∧
      (B ≠ nil → B.ptr ≠ 0 ∧ B.ptr ≠ Ctx.par k) ∧
      ∀ f ∈ k.head?, f.a = Ctx.par k ∧ f.a ≠ 0 ∧ f.a ≠ B.ptr := by
  have hnd := h.nodup_far
  have hBp := B.ptr_mem_cons
  have hkp := Ctx.par_mem_cons k
  simp only [List.nodup_cons, List.nodup_append, List.mem_cons, List.mem_append, not_or] at hnd hBp hkp
  refine ⟨by grind only, by grind only, by grind only, by grind only, by grind only, fun hB => ?_,
    fun f hf => ?_⟩
  · have := ptr_mem hB
    exact ⟨by grind only, by grind only⟩
  · cases k with
    | nil => simp at hf
    | cons g k =>
      cases Option.some.inj hf
      simp only [Ctx.addrs, Ctx.par, List.mem_cons] at hnd hkp ⊢
      exact ⟨trivial, by grind only, by grind only⟩

theorem cell_eq {l r : AddrTree α} (h : Zip L c root k (node a l x r)) :
    c a = some (L.cell l.ptr r.ptr (Ctx.par k) x) := h.sub.1

/-- Only the store at the cells of the tree matters. -/
theorem congr (h : Zip L c root k t) (hc : ∀ a, a ∈ t.addrs ∨ a ∈ Ctx.addrs k → c' a = c a) :
    Zip L c' root k t :=
  ⟨h.ctx.congr fun a ha => hc a (.inr ha), h.sub.congr fun a ha => hc a (.inl ha), h.root_eq, h.nodup⟩

/-- Another subtree is put in the place of the focus. -/
theorem replace {t' : AddrTree α} (h : Zip L c root k t) (ht : Rep L c' (Ctx.par k) t')
    (hp : ∀ f ∈ k.head?, c' f.a = (c f.a).map (L.setLink f.side t'.ptr))
    (hc : ∀ a ∈ Ctx.addrs k, a ≠ Ctx.par k → c' a = c a)
    (hnd : (0 :: (t'.addrs ++ Ctx.addrs k)).Nodup) : Zip L c' (Ctx.root k t'.ptr) k t' :=
  ⟨h.ctx.rehole (List.nodup_append.1 (List.nodup_cons.1 hnd).2).2.1 hp hc, ht, rfl, hnd⟩

/-- A new leaf is put in an empty place. -/
theorem graft (h : Zip L c root k nil) (h0 : a ≠ 0) (hfree : c a = none)
    (ha : c' a = some (L.cell 0 0 (Ctx.par k) x))
    (hk : ∀ f ∈ k.head?, c' f.a = (c f.a).map (L.setLink f.side a))
    (hc : ∀ b, b ≠ a → b ≠ Ctx.par k → c' b = c b) :
    Zip L c' (Ctx.root k a) k (node a nil x nil) := by
  have hnot : a ∉ Ctx.addrs k := by
    intro hmem
    have := h.ctx.isSome hmem
    simp [hfree] at this
  have hn := h.nodup
  have hleaf : Rep L c' (Ctx.par k) (node a nil x nil) := ⟨ha, trivial, trivial⟩
  refine h.replace hleaf hk (fun b hb hbk => hc b ?_ hbk) ?_
  · rintro rfl
    exact hnot hb
  · simp only [addrs, List.nil_append, List.append_nil, List.cons_append, List.nodup_cons,
      List.mem_cons, not_or] at hn ⊢
    exact ⟨⟨h0.symm, hn.1⟩, hnot, hn.2⟩

/-- A node with at most one child is replaced by that child. -/
theorem unlink (h : Zip L c root k (nodeS d a nil x t))
    (hp : t ≠ nil → c' t.ptr = (c t.ptr).map (L.setParent (Ctx.par k)))
    (hk : ∀ f ∈ k.head?, c' f.a = (c f.a).map (L.setLink f.side t.ptr))
    (hc : ∀ b, b ≠ a → b ≠ t.ptr → b ≠ Ctx.par k → c' b = c b) :
    Zip L c' (Ctx.root k t.ptr) k t := by
  have hnd := h.nodup_nodeS
  have htp := t.ptr_mem_cons
  have hkp := Ctx.par_mem_cons k
  have ht := (rep_nodeS.1 h.sub).2.2
  simp only [addrs, List.nil_append, List.nodup_cons, List.nodup_append, List.mem_cons,
    List.mem_append, not_or] at hnd htp hkp
  refine h.replace (ht.reparent hnd.2.2.1 hp ?_) hk ?_ ?_
  · intro b hb hbt
    exact hc b (by grind only) hbt (by grind only)
  · intro b hb hbk
    exact hc b (by grind only) (by grind only) hbk
  · simp only [List.nodup_cons, List.nodup_append, List.mem_append, not_or]
    exact ⟨hnd.1.2, hnd.2.2⟩

/-- The payload of the focus is overwritten. -/
theorem set {l r : AddrTree α} (h : Zip L c root k (node a l x r))
    (ha : c' a = some (L.cell l.ptr r.ptr (Ctx.par k) x')) (hc : ∀ b, b ≠ a → c' b = c b) :
    Zip L c' root k (node a l x' r) := by
  have hn := h.nodup_nodeS (d := .left)
  obtain ⟨hk, ⟨-, hl, hr⟩, hroot, hn'⟩ := h
  have hne : ∀ b, b ∈ l.addrs ++ (r.addrs ++ Ctx.addrs k) → c' b = c b := by
    intro b hb
    refine hc b ?_
    rintro rfl
    exact (List.nodup_cons.1 (List.nodup_cons.1 hn).2).1 hb
  exact ⟨hk.congr fun b hb => hne b (by simp [hb]), ⟨ha, hl.congr fun b hb => hne b (by simp [hb]),
    hr.congr fun b hb => hne b (by simp [hb])⟩, hroot, hn'⟩

/-! ## Rotations -/

/-- **Single rotation.**  The far child `q` of `p` comes to its place, `p` becomes the
    near child of `q` and takes over the near subtree `B` of `q`. -/
theorem rotate (h : Zip L c root k (nodeS d p A x (nodeS d q B y D)))
    (hp : c' p = some (L.cellS d A.ptr B.ptr q x'))
    (hq : c' q = some (L.cellS d p D.ptr (Ctx.par k) y'))
    (hB : B ≠ nil → c' B.ptr = (c B.ptr).map (L.setParent p))
    (hk : ∀ f ∈ k.head?, c' f.a = (c f.a).map (L.setLink f.side q))
    (hc : ∀ b, b ≠ p → b ≠ q → b ≠ B.ptr → b ≠ Ctx.par k → c' b = c b) :
    Zip L c' (Ctx.root k q) k (nodeS d q (nodeS d p A x' B) y' D) := by
  have hnd := h.nodup_far
  obtain ⟨-, hA, hqs⟩ := rep_nodeS.1 h.sub
  obtain ⟨-, hBs, hD⟩ := rep_nodeS.1 hqs
  have hBp := B.ptr_mem_cons
  have hkp := Ctx.par_mem_cons k
  have hnd' : (0 :: ((nodeS d q (nodeS d p A x' B) y' D).addrs ++ Ctx.addrs k)).Nodup := by
    refine (List.perm_iff_count.2 fun b => ?_).nodup_iff.1 hnd
    simp only [List.count_cons, List.count_append, count_addrs_nodeS, beq_iff_eq]
    omega
  have hr : Zip L c' (Ctx.root k (nodeS d q (nodeS d p A x' B) y' D).ptr) k _ := h.replace
    (rep_nodeS.2 ⟨by simpa using hq, rep_nodeS.2 ⟨hp, hA.congr ?_, hBs.reparent ?_ hB ?_⟩, hD.congr ?_⟩)
    (by simpa using hk) ?_ hnd'
  · simpa using hr
  all_goals
    simp only [List.nodup_cons, List.nodup_append, List.mem_cons, List.mem_append, not_or] at hnd hBp hkp
    clear h hnd'
    grind only

/-- The addresses at a node whose near child is a node with a far child. -/
theorem nodup_near_far (h : Zip L c root k (nodeS d p (nodeS d q A y (nodeS d r B z D)) x E)) :
    (0 :: p :: q :: r :: (A.addrs ++ (B.addrs ++ (D.addrs ++ (E.addrs ++ Ctx.addrs k))))).Nodup := by
  refine (List.perm_iff_count.2 fun b => ?_).nodup_iff.1 h.nodup
  simp only [List.count_cons, List.count_append, count_addrs_nodeS, beq_iff_eq]
  omega

/-- The addresses that a double rotation touches are distinct. -/
theorem near_far_apart (h : Zip L c root k (nodeS d p (nodeS d q A y (nodeS d r B z D)) x E)) :
    (p ≠ q ∧ p ≠ r ∧ q ≠ r) ∧ (p ≠ B.ptr ∧ q ≠ B.ptr ∧ r ≠ B.ptr) ∧
      (p ≠ D.ptr ∧ q ≠ D.ptr ∧ r ≠ D.ptr) ∧ (p ≠ Ctx.par k ∧ q ≠ Ctx.par k ∧ r ≠ Ctx.par k) ∧
      (B ≠ nil → B.ptr ≠ 0 ∧ B.ptr ≠ Ctx.par k ∧ B.ptr ≠ D.ptr) ∧
      (D ≠ nil → D.ptr ≠ 0 ∧ D.ptr ≠ Ctx.par k ∧ D.ptr ≠ B.ptr) ∧
      ∀ f ∈ k.head?, f.a = Ctx.par k ∧ f.a ≠ 0 ∧ f.a ≠ B.ptr ∧ f.a ≠ D.ptr := by
  have hnd := h.nodup_near_far
  have hBp := B.ptr_mem_cons
  have hDp := D.ptr_mem_cons
  have hkp := Ctx.par_mem_cons k
  simp only [List.nodup_cons, List.nodup_append, List.mem_cons, List.mem_append, not_or] at hnd hBp hDp hkp
  refine ⟨by grind only, by grind only, by grind only, by grind only, fun hB => ?_, fun hD => ?_,
    fun f hf => ?_⟩
  · have := ptr_mem hB
    exact ⟨by grind only, by grind only, by grind only⟩
  · have := ptr_mem hD
    exact ⟨by grind only, by grind only, by grind only⟩
  · cases k with
    | nil => simp at hf
    | cons g k =>
      cases Option.some.inj hf
      simp only [Ctx.addrs, Ctx.par, List.mem_cons] at hnd hkp ⊢
      exact ⟨trivial, by grind only, by grind only, by grind only⟩

/-- **Double rotation.**  The far child `r` of the near child `q` of `p` comes to the
    place of `p`, between `q` and `p`, which take over its subtrees. -/
theorem rotate₂ (h : Zip L c root k (nodeS d p (nodeS d q A y (nodeS d r B z D)) x E))
    (hp : c' p = some (L.cellS d D.ptr E.ptr r x'))
    (hq : c' q = some (L.cellS d A.ptr B.ptr r y'))
    (hr : c' r = some (L.cellS d q p (Ctx.par k) z'))
    (hB : B ≠ nil → c' B.ptr = (c B.ptr).map (L.setParent q))
    (hD : D ≠ nil → c' D.ptr = (c D.ptr).map (L.setParent p))
    (hk : ∀ f ∈ k.head?, c' f.a = (c f.a).map (L.setLink f.side r))
    (hc : ∀ b, b ≠ p → b ≠ q → b ≠ r → b ≠ B.ptr → b ≠ D.ptr → b ≠ Ctx.par k → c' b = c b) :
    Zip L c' (Ctx.root k r) k (nodeS d r (nodeS d q A y' B) z' (nodeS d p D x' E)) := by
  have hnd := h.nodup_near_far
  obtain ⟨-, hqs, hE⟩ := rep_nodeS.1 h.sub
  obtain ⟨-, hA, hrs⟩ := rep_nodeS.1 hqs
  obtain ⟨-, hBs, hDs⟩ := rep_nodeS.1 hrs
  have hBp := B.ptr_mem_cons
  have hDp := D.ptr_mem_cons
  have hkp := Ctx.par_mem_cons k
  have hnd' : (0 :: ((nodeS d r (nodeS d q A y' B) z' (nodeS d p D x' E)).addrs ++ Ctx.addrs k)).Nodup := by
    refine (List.perm_iff_count.2 fun b => ?_).nodup_iff.1 hnd
    simp only [List.count_cons, List.count_append, count_addrs_nodeS, beq_iff_eq]
    omega
  have hz : Zip L c' (Ctx.root k (nodeS d r (nodeS d q A y' B) z' (nodeS d p D x' E)).ptr) k _ := h.replace
    (rep_nodeS.2 ⟨by simpa using hr, rep_nodeS.2 ⟨hq, hA.congr ?_, hBs.reparent ?_ hB ?_⟩,
      rep_nodeS.2 ⟨hp, hDs.reparent ?_ hD ?_, hE.congr ?_⟩⟩)
    (by simpa using hk) ?_ hnd'
  · simpa using hz
  all_goals
    simp only [List.nodup_cons, List.nodup_append, List.mem_cons, List.mem_append, not_or] at hnd hBp hDp hkp
    clear h hnd'
    grind only

end Zip

end Linked
