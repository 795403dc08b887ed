/-
  The two traversals without a stack: `p_tree_foreach` and `p_tree_clear`.

  During a traversal the right link of the last node of a subtree may lead on to the
  ancestor that comes next in order; `Threaded s nxt t` says that the memory holds the
  subtree `t` in this form.  A subtree that is passed is left as it was.
-/
import Plibsys.Tree.Change

namespace Plibsys

open Looping Linked

variable {E τ ω : Type} {N : NodeLayout E τ} {s s' : Mem E ω} {k : Ctx (Item τ)} {t u l r : AddrTree (Item τ)}
  {x : Item τ} {a b nxt fuel : ℕ}

/-! ## Threaded subtrees -/

/-- Where a right link leads: to the subtree, or on to `nxt` if the subtree is empty. -/
def entry (nxt : ppointer) : AddrTree (Item τ) → ppointer
  | .nil => nxt
  | .node a _ _ _ => a

/-- The memory holds the subtree, the right link of its last node leading on to `nxt`. -/
def Threaded (s : Mem E ω) : ppointer → AddrTree (Item τ) → Prop
  | _, .nil => True
  | nxt, .node a l x r =>
    (∃ n, s.get a = some n ∧ n.left = l.ptr ∧ n.right = entry nxt r ∧ (n.key, n.value) = x.pair) ∧
      Threaded s NULL l ∧ Threaded s nxt r

/-- The address of the last node in order. -/
def lastPtr : AddrTree (Item τ) → ppointer
  | .nil => NULL
  | .node a _ _ .nil => a
  | .node _ _ _ (.node b l y r) => lastPtr (.node b l y r)

theorem entry_null : entry NULL t = t.ptr := by cases t <;> rfl

theorem entry_of_ne (ht : t ≠ .nil) : entry nxt t = t.ptr := by
  cases t with
  | nil => exact absurd rfl ht
  | node a l x r => rfl

theorem lastPtr_mem (ht : t ≠ .nil) : lastPtr t ∈ t.addrs := by
  induction t with
  | nil => exact absurd rfl ht
  | node a l x r _ ihr =>
    cases r with
    | nil => simp [lastPtr, AddrTree.addrs]
    | node b l' y r' =>
      have := ihr (by simp)
      rw [AddrTree.addrs]
      exact List.mem_cons_of_mem _ (List.mem_append_right _ this)

/-- The addresses of a node and its subtrees are distinct. -/
theorem nodup_addrs_node (h : (AddrTree.node a l x r).addrs.Nodup) :
    a ∉ l.addrs ∧ a ∉ r.addrs ∧ l.addrs.Nodup ∧ r.addrs.Nodup ∧ ∀ b ∈ l.addrs, b ∉ r.addrs := by
  simp only [AddrTree.addrs, List.nodup_cons, List.mem_append, not_or, List.nodup_append] at h
  exact ⟨h.1.1, h.1.2, h.2.1, h.2.2.1, fun b hb hb' => h.2.2.2 b hb b hb' rfl⟩

theorem Holds.threaded (h : Holds N s k t) : Threaded s NULL t := by
  have hrep := h.sub
  generalize Ctx.par k = p at hrep
  clear h
  induction t generalizing p with
  | nil => trivial
  | node a l x r ihl ihr =>
    obtain ⟨ha, hl, hr⟩ := hrep
    refine ⟨⟨_, ha, ?_, ?_, ?_⟩, ihl _ hl, ihr _ hr⟩
    · rw [N.cell_left]
    · rw [N.cell_right, entry_null]
    · rw [N.key_cell, N.value_cell]; rfl

namespace Threaded

/-- Frame: only the cells of the subtree matter. -/
theorem congr (h : Threaded s nxt t) (hs : ∀ b ∈ t.addrs, s'.get b = s.get b) : Threaded s' nxt t := by
  induction t generalizing nxt with
  | nil => trivial
  | node a l x r ihl ihr =>
    obtain ⟨⟨n, hn, hrest⟩, hl, hr⟩ := h
    exact ⟨⟨n, (hs a (by simp [AddrTree.addrs])).trans hn, hrest⟩,
      ihl hl fun b hb => hs b (by simp [AddrTree.addrs, hb]),
        ihr hr fun b hb => hs b (by simp [AddrTree.addrs, hb])⟩

theorem get_last (h : Threaded s nxt t) (ht : t ≠ .nil) :
    ∃ n, s.get (lastPtr t) = some n ∧ n.right = nxt := by
  induction t generalizing nxt with
  | nil => exact absurd rfl ht
  | node a l x r _ ihr =>
    obtain ⟨⟨n, hn, -, hright, -⟩, -, hr⟩ := h
    cases r with
    | nil => exact ⟨n, hn, hright⟩
    | node b l' y r' => exact ihr hr (by simp)

/-- The right link of the last node is set. -/
theorem thread (h : Threaded s nxt t) (hnd : t.addrs.Nodup) (q : ppointer) :
    Threaded (s.modify (lastPtr t) fun n => { n with right := q }) q t := by
  induction t generalizing nxt with
  | nil => trivial
  | node a l x r _ ihr =>
    obtain ⟨⟨n, hn, hleft, hright, hpair⟩, hl, hr⟩ := h
    obtain ⟨hal, har, -, hrn, hlr⟩ := nodup_addrs_node hnd
    cases r with
    | nil =>
      refine ⟨⟨{ n with right := q }, Mem.get_modify_eq _ hn, hleft, rfl, hpair⟩, ?_, trivial⟩
      refine hl.congr fun b hb => Mem.get_modify_of_ne ?_
      rintro rfl
      exact hal hb
    | node b l' y r' =>
      have hlast : lastPtr (.node b l' y r') ∈ _ := lastPtr_mem (by simp)
      refine ⟨⟨n, ?_, hleft, hright, hpair⟩, ?_, ihr hr hrn⟩
      · refine (Mem.get_modify_of_ne fun he => ?_).trans hn
        rw [show a = lastPtr (.node b l' y r') from he] at har
        exact har hlast
      · refine hl.congr fun c hc => Mem.get_modify_of_ne fun he => ?_
        rw [show c = lastPtr (.node b l' y r') from he] at hc
        exact hlr _ hc hlast

/-- The search for the predecessor ends at the last node of the left subtree, threaded or
    not. -/
theorem run_findPrev {cur : ppointer} (h : Threaded s nxt t) (ht : t ≠ .nil) (h0 : NULL ∉ t.addrs)
    (hnxt : nxt = NULL ∨ nxt = cur) (hcur : cur ∉ t.addrs) (hfuel : t.size ≤ fuel) :
    (findPrev fuel cur t.ptr).run s = some (lastPtr t, s) := by
  induction t generalizing fuel nxt with
  | nil => exact absurd rfl ht
  | node a l x r _ ihr =>
    obtain ⟨⟨n, hn, -, hright, -⟩, -, hr⟩ := h
    rw [AddrTree.size] at hfuel
    obtain ⟨fuel, rfl⟩ : ∃ m, fuel = m + 1 := ⟨fuel - 1, by omega⟩
    cases r with
    | nil =>
      have : ¬ (n.right ≠ NULL ∧ n.right ≠ cur) := by
        rw [hright]
        rintro ⟨h1, h2⟩
        exact hnxt.elim h1 h2
      exact loop_done (by simp [hn, this, lastPtr])
    | node b l' y r' =>
      have hb : n.right = b := hright
      simp only [AddrTree.addrs, List.mem_cons, List.mem_append, not_or] at h0 hcur
      have hne : b ≠ NULL ∧ b ≠ cur := ⟨Ne.symm h0.2.2.1, Ne.symm hcur.2.2.1⟩
      refine (loop_next (by simp [hn, hb, hne])).trans (ihr hr (by simp) ?_ hnxt ?_ (by omega))
      · simpa only [AddrTree.addrs, List.mem_cons, List.mem_append, not_or] using h0.2.2
      · simpa only [AddrTree.addrs, List.mem_cons, List.mem_append, not_or] using hcur.2.2

theorem run_findRightmost (h : Threaded s NULL t) (ht : t ≠ .nil) (h0 : NULL ∉ t.addrs)
    (hfuel : t.size ≤ fuel) : (findRightmost fuel t.ptr).run s = some (lastPtr t, s) := by
  induction t generalizing fuel with
  | nil => exact absurd rfl ht
  | node a l x r _ ihr =>
    obtain ⟨⟨n, hn, -, hright, -⟩, -, hr⟩ := h
    rw [AddrTree.size] at hfuel
    obtain ⟨fuel, rfl⟩ : ∃ m, fuel = m + 1 := ⟨fuel - 1, by omega⟩
    cases r with
    | nil => exact loop_done (by simp [hn, show n.right = 0 from hright, lastPtr])
    | node b l' y r' =>
      have hb : n.right = b := hright
      simp only [AddrTree.addrs, List.mem_cons, List.mem_append, not_or] at h0
      have hne : b ≠ NULL := Ne.symm h0.2.2.1
      refine (loop_next (by simp [hn, hb, hne])).trans (ihr hr (by simp) ?_ (by omega))
      simpa only [AddrTree.addrs, List.mem_cons, List.mem_append, not_or] using h0.2.2

end Threaded

/-- A link that was `NULL` is set and cleared again. -/
theorem Mem.modify_modify_right {n : PTreeBaseNode E} (hn : s.get a = some n) (h0 : n.right = NULL)
    (q : ppointer) (w : ω) :
    (((s.modify a fun n => { n with right := q }).withWorld w).modify a fun n => { n with right := NULL }) =
      s.withWorld w := by
  have ha : s.cell a = some n := by
    unfold Mem.get at hn
    split at hn
    · cases hn
    · exact hn
  simp only [Mem.modify, Mem.store, Mem.withWorld, Mem.mk.injEq, true_and, and_true, Function.update_self,
    Function.update_idem, ha, Option.map_some]
  rw [show ({ n with right := NULL } : PTreeBaseNode E) = n by rw [← h0], ← ha, Function.update_eq_self]

/-! ## `p_tree_foreach` -/

/-- One visit: nothing happens once the traversal is to stop. -/
def visitPair (traverse_func : PTraverseFunc ω) (r : pboolean × ω) (p : ppointer × ppointer) : pboolean × ω :=
  if r.1 = FALSE then traverse_func p.1 p.2 r.2 else r

/-- The visits to the bindings `ps` in turn: the stop flag and the outside world after them. -/
def visitAll (traverse_func : PTraverseFunc ω) (ps : List (ppointer × ppointer)) (r : pboolean × ω) :
    pboolean × ω :=
  ps.foldl (visitPair traverse_func) r

/-- The largest number of threads that are open at the same time. -/
def leftDepth : AddrTree (Item τ) → ℕ
  | .nil => 0
  | .node _ .nil _ r => leftDepth r
  | .node _ (.node a l x r) _ r' => max (leftDepth (.node a l x r) + 1) (leftDepth r')

theorem leftDepth_node (hl : l ≠ .nil) : leftDepth (.node a l x r) = max (leftDepth l + 1) (leftDepth r) := by
  cases l with
  | nil => exact absurd rfl hl
  | node b l' y r' => rfl

section
variable (fuel) (traverse_func : PTraverseFunc ω) (mc : pint)

theorem visitAll_stop (ps : List (ppointer × ppointer)) {r : pboolean × ω} (h : r.1 ≠ FALSE) :
    visitAll traverse_func ps r = r := by
  induction ps with
  | nil => rfl
  | cons p ps ih => rwa [visitAll, List.foldl_cons, visitPair, if_neg h]

theorem run_visit {n : PTreeBaseNode E} {r : pboolean × ω} {p : ppointer × ppointer} (hn : s.get a = some n)
    (hp : (n.key, n.value) = p) :
    (visit traverse_func a r.1).run (s.withWorld r.2) =
      some ((visitPair traverse_func r p).1, s.withWorld (visitPair traverse_func r p).2) := by
  subst hp
  by_cases hr : r.1 = FALSE
  · simp [visit, visitPair, hr, hn]
    rfl
  · simp [visit, visitPair, hr]

/-- A node without left child is visited. -/
theorem run_foreachStep_visit (r : pboolean × ω) {n : PTreeBaseNode E} {p : ppointer × ppointer} {q : ppointer}
    (ha : a ≠ NULL) (hn : s.get a = some n) (hl : n.left = NULL) (hr : n.right = q)
    (hp : (n.key, n.value) = p) :
    (pTreeForeachStep fuel traverse_func (a, mc, r.1)).run (s.withWorld r.2) =
      some (.next (q, mc, (visitPair traverse_func r p).1), s.withWorld (visitPair traverse_func r p).2) := by
  have hv := run_visit traverse_func (r := r) hn hp
  simp [pTreeForeachStep, ha, hn, hl, hr, hv]

/-- At the first arrival at a node with a left child, its predecessor gets a thread. -/
theorem run_foreachStep_thread (r : pboolean × ω) {n : PTreeBaseNode E} (ha : a ≠ NULL)
    (hn : s.get a = some n) (hl : n.left = l.ptr) (hlne : l ≠ .nil) (h : Threaded s NULL l)
    (h0 : NULL ∉ l.addrs) (hal : a ∉ l.addrs)
    (hfuel : l.size ≤ fuel) :
    (pTreeForeachStep fuel traverse_func (a, mc, r.1)).run (s.withWorld r.2) =
      some (.next (l.ptr, mc + 1, r.1), (s.modify (lastPtr l) fun n => { n with right := a }).withWorld r.2) := by
  have hl0 : l.ptr ≠ NULL := fun he => h0 (he ▸ AddrTree.ptr_mem hlne)
  have h' : Threaded (s.withWorld r.2) NULL l := h.congr fun _ _ => rfl
  have hprev := h'.run_findPrev hlne h0 (.inl rfl) hal hfuel
  obtain ⟨m, hm, hm0⟩ := h.get_last hlne
  have hlast : a ≠ lastPtr l := fun he => hal (he ▸ lastPtr_mem hlne)
  have hga : ((s.withWorld r.2).modify (lastPtr l) fun n => { n with right := a }).get a = some n :=
    (Mem.get_modify_of_ne hlast).trans hn
  simp [pTreeForeachStep, ha, hn, hl, hl0, hprev, hm, hm0, hga]
  rfl

/-- At the second arrival the thread is removed and the node is visited. -/
theorem run_foreachStep_unthread (r : pboolean × ω) {n : PTreeBaseNode E} {p : ppointer × ppointer} {q : ppointer}
    (ha : a ≠ NULL) (hn : s.get a = some n) (hl : n.left = l.ptr) (hr : n.right = q)
    (hp : (n.key, n.value) = p) (hlne : l ≠ .nil)
    (h : Threaded s NULL l) (hnd : l.addrs.Nodup) (h0 : NULL ∉ l.addrs) (hal : a ∉ l.addrs)
    (hfuel : l.size ≤ fuel) :
    (pTreeForeachStep fuel traverse_func (a, mc + 1, r.1)).run
        ((s.modify (lastPtr l) fun n => { n with right := a }).withWorld r.2) =
      some (if (visitPair traverse_func r p).1 = TRUE ∧ mc = 0 then .done ()
          else .next (q, mc, (visitPair traverse_func r p).1),
        s.withWorld (visitPair traverse_func r p).2) := by
  have hl0 : l.ptr ≠ NULL := fun he => h0 (he ▸ AddrTree.ptr_mem hlne)
  have hlast : a ≠ lastPtr l := fun he => hal (he ▸ lastPtr_mem hlne)
  obtain ⟨m, hm, hm0⟩ := h.get_last hlne
  have hgm := Mem.get_modify_eq (fun n => { n with right := a }) hm
  have hga := (Mem.get_modify_of_ne (f := fun n => { n with right := a }) hlast).trans hn
  have h' := h.thread hnd a
  have hv := run_visit traverse_func (r := r) hga hp
  have hback := Mem.modify_modify_right hm hm0 a (visitPair traverse_func r p).2
  generalize s.modify (lastPtr l) (fun n => { n with right := a }) = s' at *
  have h'' : Threaded (s'.withWorld r.2) a l := h'.congr fun _ _ => rfl
  have hprev := h''.run_findPrev hlne h0 (.inr rfl) hal hfuel
  simp [pTreeForeachStep, ha, hl, hr, hl0, hprev, hgm, hga, hv, hback]
  split_ifs <;> rfl

/-- The subtree entered at `p` is passed within `m` rounds: the traversal arrives at `nxt`, or
    it has been stopped and no thread is open. -/
def Passes (fuel : ℕ) (s : Mem E ω) (m : ℕ) (p nxt : ppointer) (mc : pint) (r r' : pboolean × ω) : Prop :=
  (∃ i ≤ m, Iters (pTreeForeachStep fuel traverse_func) i ((p, mc, r.1), s.withWorld r.2)
    ((nxt, mc, r'.1), s.withWorld r'.2)) ∨
  (r'.1 = TRUE ∧ mc = 0 ∧ ∃ i ≤ m, ∃ e, Iters (pTreeForeachStep fuel traverse_func) i
    ((p, mc, r.1), s.withWorld r.2) e ∧
    (pTreeForeachStep fuel traverse_func e.1).run e.2 = some (.done (), s.withWorld r'.2))

variable {fuel traverse_func mc}

namespace Passes
variable {m m' : ℕ} {p q : ppointer} {r r' r'' : pboolean × ω}

theorem refl : Passes traverse_func fuel s m p p mc r r := .inl ⟨0, Nat.zero_le m, .refl⟩

theorem mono (h : Passes traverse_func fuel s m p q mc r r') (hm : m ≤ m') :
    Passes traverse_func fuel s m' p q mc r r' := by
  rcases h with ⟨i, hi, h⟩ | ⟨hr, hmc, i, hi, h⟩
  · exact .inl ⟨i, Nat.le_trans hi hm, h⟩
  · exact .inr ⟨hr, hmc, i, Nat.le_trans hi hm, h⟩

theorem head {i : ℕ} (hi : Iters (pTreeForeachStep fuel traverse_func) i ((p, mc, r.1), s.withWorld r.2)
      ((q, mc, r'.1), s.withWorld r'.2)) (h : Passes traverse_func fuel s m q nxt mc r' r'') :
    Passes traverse_func fuel s (i + m) p nxt mc r r'' := by
  rcases h with ⟨j, hj, h⟩ | ⟨hr, hmc, j, hj, e, h, hd⟩
  · exact .inl ⟨i + j, Nat.add_le_add_left hj i, hi.trans h⟩
  · exact .inr ⟨hr, hmc, i + j, Nat.add_le_add_left hj i, e, hi.trans h, hd⟩

end Passes

/-- **A subtree is passed**: its bindings are visited in order, and it is left as it was.  If
    the traversal is stopped, the counter of the open threads must not wrap. -/
theorem Threaded.passes {r : pboolean × ω} (h : Threaded s nxt t) (hnd : t.addrs.Nodup) (h0 : NULL ∉ t.addrs)
    (hnxt : nxt ∉ t.addrs) (hfuel : t.size ≤ fuel)
    (hok : (visitAll traverse_func (pairs t) r).1 = TRUE → ∀ j, 0 < j → j ≤ leftDepth t → mc + Int32.ofNat j ≠ 0) :
    Passes traverse_func fuel s (2 * t.size) (entry nxt t) nxt mc r (visitAll traverse_func (pairs t) r) := by
  induction t generalizing s nxt mc r with
  | nil => exact .refl
  | node a l x u ihl ihu =>
    obtain ⟨⟨n, hn, hleft, hright, hpair⟩, hl, hu⟩ := h
    obtain ⟨hal, hau, hln, hun, hlu⟩ := nodup_addrs_node hnd
    simp only [AddrTree.addrs, List.mem_cons, List.mem_append, not_or] at h0 hnxt
    obtain ⟨ha0, hl0, hu0⟩ := h0
    obtain ⟨hna, hnl, hnu⟩ := hnxt
    rw [AddrTree.size] at hfuel
    have hvisits : visitAll traverse_func (pairs (.node a l x u)) r =
        visitAll traverse_func (pairs u) (visitPair traverse_func (visitAll traverse_func (pairs l) r) x.pair) := by
      simp [visitAll]
    rw [hvisits] at hok ⊢
    by_cases hlne : l = .nil
    · subst hlne
      refine (Passes.head (.one (run_foreachStep_visit fuel traverse_func mc r (Ne.symm ha0) hn hleft hright hpair))
        (ihu hu hun hu0 hnu (by omega) hok)).mono ?_
      simp only [AddrTree.size]
      omega
    · -- the left subtree is passed with one more thread open, and cannot be left early
      let r₁ := visitAll traverse_func (pairs l) r
      let r₂ := visitPair traverse_func r₁ x.pair
      have hrise : r₁.1 = TRUE → (visitAll traverse_func (pairs u) r₂).1 = TRUE := fun h₁ => by
        have hstop : r₁.1 ≠ FALSE := fun h₀ => true_ne_false (h₁.symm.trans h₀)
        have h₂ : r₂ = r₁ := if_neg hstop
        rw [h₂, visitAll_stop _ _ hstop, h₁]
      have hdepth := leftDepth_node (a := a) (x := x) (r := u) hlne
      have hok₁ : r₁.1 = TRUE → ∀ j, 0 < j → j ≤ leftDepth l → mc + 1 + Int32.ofNat j ≠ 0 := fun h₁ j _ hj => by
        have := hok (hrise h₁) (j + 1) (by omega) (by omega)
        rwa [Int32.ofNat_add, Int32.add_comm (.ofNat j), ← Int32.add_assoc] at this
      have hmc₁ : r₁.1 = TRUE → mc + 1 ≠ 0 := fun h₁ => hok (hrise h₁) 1 (by omega) (by omega)
      have hthread := run_foreachStep_thread fuel traverse_func mc r (Ne.symm ha0) hn hleft hlne hl hl0 hal
        (by omega)
      have hunthread := run_foreachStep_unthread fuel traverse_func mc r₁
        (Ne.symm ha0) hn hleft hright hpair hlne hl
        hln hl0 hal (by omega)
      have hpass := ihl (hl.thread hln a) hln hl0 hal (by omega) hok₁
      rw [entry_of_ne hlne] at hpass
      obtain ⟨i, hi, hiters⟩ | ⟨h₁, hmc, -⟩ := hpass
      · have hmost := (Iters.one hthread).trans hiters
        by_cases hexit : r₂.1 = TRUE ∧ mc = 0
        · rw [if_pos hexit] at hunthread
          rw [visitAll_stop _ _ fun h₀ => true_ne_false (hexit.1.symm.trans h₀)]
          exact .inr ⟨hexit.1, hexit.2, 1 + i, by rw [AddrTree.size]; omega, _, hmost, hunthread⟩
        · rw [if_neg hexit] at hunthread
          refine (Passes.head (hmost.trans (.one hunthread)) (ihu hu hun hu0 hnu (by omega) ?_)).mono ?_
          · exact fun h₂ j hj hju => hok h₂ j hj (by omega)
          · rw [AddrTree.size]; omega
      · exact absurd hmc (hmc₁ h₁)

theorem ofNat_ne_zero {j : ℕ} (h0 : 0 < j) (hj : j < 2 ^ 32) : (0 : pint) + Int32.ofNat j ≠ 0 := by
  intro h
  have h := congrArg (fun n : pint => n.toBitVec.toNat) h
  simp [Int32.toBitVec_ofNat'] at h
  omega

/-- **The traversal visits the bindings in order** and leaves the nodes and links as they were.
    If it is stopped, the counter of the open threads must not wrap. -/
theorem Holds.run_foreach (h : Holds N s [] t) (hfuel : 2 * t.size < fuel)
    (hok : (visitAll traverse_func (pairs t) (FALSE, s.world)).1 = TRUE → leftDepth t < 2 ^ 32) :
    (loop (pTreeForeachStep fuel traverse_func) fuel (s.root, 0, FALSE)).run s =
      some ((), s.withWorld (visitAll traverse_func (pairs t) (FALSE, s.world)).2) := by
  have hnd := h.nodup
  simp only [Ctx.addrs, List.append_nil, List.nodup_cons] at hnd
  have hroot : s.root = entry NULL t := h.root_eq.trans entry_null.symm
  have hpass : Passes traverse_func fuel s (2 * t.size) (entry NULL t) NULL 0 (FALSE, s.world) _ :=
    h.threaded.passes hnd.2 hnd.1 hnd.1 (by omega) fun hs j h0 hj =>
      ofNat_ne_zero h0 (Nat.lt_of_le_of_lt hj (hok hs))
  rw [hroot]
  obtain ⟨i, hi, hiters⟩ | ⟨-, -, i, hi, e, hiters, hdone⟩ := hpass
  · exact loop_eq hiters (by simp [pTreeForeachStep]) (by omega)
  · exact loop_eq hiters hdone (by omega)

end

/-! ## `p_tree_clear` -/

/-- The tree `u` hung below the last node of `t`. -/
def appendRight : AddrTree (Item τ) → AddrTree (Item τ) → AddrTree (Item τ)
  | .nil, u => u
  | .node a l x r, u => .node a l x (appendRight r u)

/-- The number of left links, each of which is cut once. -/
def leftLinks : AddrTree (Item τ) → ℕ
  | .nil => 0
  | .node _ .nil _ r => leftLinks r
  | .node _ (.node a l x r) _ r' => leftLinks (.node a l x r) + leftLinks r' + 1

theorem leftLinks_node (hl : l ≠ .nil) : leftLinks (.node a l x r) = leftLinks l + leftLinks r + 1 := by
  cases l with
  | nil => exact absurd rfl hl
  | node b l' y r' => rfl

theorem leftLinks_le (t : AddrTree (Item τ)) : leftLinks t ≤ t.size := by
  induction t with
  | nil => exact Nat.le_refl _
  | node a l x r ihl ihr =>
    cases l with
    | nil => simp only [leftLinks, AddrTree.size]; omega
    | node b l' y r' => rw [leftLinks_node (by simp), AddrTree.size]; omega

theorem addrs_appendRight : (appendRight t u).addrs = t.addrs ++ u.addrs := by
  induction t with
  | nil => rfl
  | node a l x r _ ihr => simp [appendRight, AddrTree.addrs, ihr]

theorem pairs_appendRight : pairs (appendRight t u) = pairs t ++ pairs u := by
  induction t with
  | nil => rfl
  | node a l x r _ ihr => simp [appendRight, ihr]

theorem leftLinks_appendRight : leftLinks (appendRight t u) = leftLinks t + leftLinks u := by
  induction t with
  | nil => exact (Nat.zero_add _).symm
  | node a l x r _ ihr =>
    by_cases hl : l = .nil
    · subst hl
      exact ihr
    · rw [appendRight, leftLinks_node hl, leftLinks_node hl, ihr]
      omega

theorem entry_appendRight : entry NULL (appendRight t u) = entry u.ptr t := by
  cases t with
  | nil => exact entry_null
  | node a l x r => rfl

theorem Threaded.append (ht : Threaded s u.ptr t) (hu : Threaded s NULL u) :
    Threaded s NULL (appendRight t u) := by
  induction t with
  | nil => exact hu
  | node a l x r _ ihr =>
    obtain ⟨⟨n, hn, hleft, hright, hpair⟩, hl, hr⟩ := ht
    exact ⟨⟨n, hn, hleft, hright.trans entry_appendRight.symm, hpair⟩, hl, ihr hr⟩

/-- A left subtree is hung below its last node in front of its parent. -/
theorem Threaded.unroll (h : Threaded s NULL (.node a l x r)) (hnd : (AddrTree.node a l x r).addrs.Nodup)
    (hl : l ≠ .nil) :
    Threaded ((s.modify (lastPtr l) fun n => { n with right := a }).modify a fun n => { n with left := NULL })
      NULL (appendRight l (.node a .nil x r)) := by
  obtain ⟨⟨n, hn, -, hright, hpair⟩, hls, hr⟩ := h
  obtain ⟨hal, har, hln, -, hlr⟩ := nodup_addrs_node hnd
  have hlast := lastPtr_mem hl
  have hne : a ≠ lastPtr l := fun he => hal (he ▸ hlast)
  refine Threaded.append ?_ ⟨⟨{ n with left := NULL }, ?_, rfl, hright, hpair⟩, trivial, ?_⟩
  · refine (hls.thread hln a).congr fun b hb => Mem.get_modify_of_ne ?_
    rintro rfl
    exact hal hb
  · exact Mem.get_modify_eq _ ((Mem.get_modify_of_ne hne).trans hn)
  · refine hr.congr fun b hb => (Mem.get_modify_of_ne ?_).trans (Mem.get_modify_of_ne ?_)
    · rintro rfl
      exact har hb
    · rintro rfl
      exact hlr _ hlast hb

section
variable (kd vd : Option (PDestroyFunc ω))

/-- The outside world after the notifications for the bindings `ps` in turn. -/
def notifiedAll (ps : List (ppointer × ppointer)) (world : ω) : ω :=
  ps.foldl (fun w p => notifiedPair kd vd p w) world

variable (fuel)

/-- A node without left child is freed. -/
theorem run_clearStep_free (nnodes : pint) {n : PTreeBaseNode E} (ha : a ≠ NULL) (hn : s.get a = some n)
    (hl : n.left = NULL) :
    (pTreeClearStep fuel kd vd (a, nnodes)).run s = some (.next (n.right, nnodes - 1),
      (s.withWorld (notifiedPair kd vd (n.key, n.value) s.world)).store a none) := by
  simp [pTreeClearStep, ha, hn, hl, notifiedPair]
  rfl

/-- A left subtree is hung in front of its parent. -/
theorem run_clearStep_unroll (nnodes : pint) {n : PTreeBaseNode E} (ha : a ≠ NULL) (hn : s.get a = some n)
    (hl : n.left = l.ptr) (hlne : l ≠ .nil) (h : Threaded s NULL l) (h0 : NULL ∉ l.addrs) (hal : a ∉ l.addrs)
    (hfuel : l.size ≤ fuel) :
    (pTreeClearStep fuel kd vd (a, nnodes)).run s = some (.next (l.ptr, nnodes),
      (s.modify (lastPtr l) fun n => { n with right := a }).modify a fun n => { n with left := NULL }) := by
  have hl0 : l.ptr ≠ NULL := fun he => h0 (he ▸ AddrTree.ptr_mem hlne)
  have hprev := h.run_findRightmost hlne h0 hfuel
  have hne : a ≠ lastPtr l := fun he => hal (he ▸ lastPtr_mem hlne)
  obtain ⟨m, hm, -⟩ := h.get_last hlne
  have hga : (s.modify (lastPtr l) fun n => { n with right := a }).get a = some n :=
    (Mem.get_modify_of_ne hne).trans hn
  simp [pTreeClearStep, ha, hn, hl, hl0, hprev, hm, hga]

theorem sub_ofNat_size (nnodes : pint) (a : ℕ) (x : Item τ) (r : AddrTree (Item τ)) :
    nnodes - 1 - Int32.ofNat r.size = nnodes - Int32.ofNat (AddrTree.node a .nil x r).size := by
  rw [Int32.sub_sub, Int32.add_comm, AddrTree.size, AddrTree.size, Nat.zero_add, Int32.ofNat_add]
  rfl

/-- The nodes behind one that is freed stay as they are. -/
theorem Threaded.of_free (h : Threaded s NULL r) (har : a ∉ r.addrs) (w : ω) :
    Threaded ((s.withWorld w).store a none) NULL r :=
  h.congr fun b hb => by
    rw [Mem.get_store, if_neg]
    · rfl
    · rintro ⟨rfl, -⟩
      exact har hb

/-- Unrolling keeps the nodes and cuts one left link. -/
theorem perm_unroll (a : ℕ) (l : AddrTree (Item τ)) (x : Item τ) (r : AddrTree (Item τ)) :
    (appendRight l (.node a .nil x r)).addrs.Perm (AddrTree.node a l x r).addrs := by
  rw [addrs_appendRight]
  exact List.perm_middle

theorem size_unroll (a : ℕ) (l : AddrTree (Item τ)) (x : Item τ) (r : AddrTree (Item τ)) :
    (appendRight l (.node a .nil x r)).size = (AddrTree.node a l x r).size := by
  rw [← AddrTree.length_addrs, (perm_unroll a l x r).length_eq, AddrTree.length_addrs]

theorem ptr_unroll (hl : l ≠ .nil) : (appendRight l (.node a .nil x r)).ptr = l.ptr := by
  rw [← entry_null, entry_appendRight, entry_of_ne hl]

/-- All nodes of `t` have been destroyed in order and freed, and nothing else is touched. -/
structure Cleared (s : Mem E ω) (t : AddrTree (Item τ)) (s' : Mem E ω) : Prop where
  world : s'.world = notifiedAll kd vd (pairs t) s.world
  root : s'.root = s.root
  get : ∀ b, s'.get b = if b ∈ t.addrs then none else s.get b

/-- The first node is freed, then the others are cleared. -/
theorem Cleared.of_free (ha : a ≠ NULL)
    (h : Cleared kd vd ((s.withWorld (notifiedPair kd vd x.pair s.world)).store a none) r s') :
    Cleared kd vd s (.node a .nil x r) s' := by
  refine ⟨?_, h.root, fun b => ?_⟩
  · rw [h.world]
    simp [notifiedAll]
  · rw [h.get, Mem.get_store]
    by_cases hb : b = a
    · simp [hb, ha, AddrTree.addrs]
    · simp [hb, AddrTree.addrs]

/-- A left subtree is unrolled, then the tree is cleared. -/
theorem Cleared.of_unroll (hl : l ≠ .nil)
    (h : Cleared kd vd
      ((s.modify (lastPtr l) fun n => { n with right := a }).modify a fun n => { n with left := NULL })
      (appendRight l (.node a .nil x r)) s') : Cleared kd vd s (.node a l x r) s' := by
  refine ⟨?_, h.root, fun b => ?_⟩
  · rw [h.world, pairs_appendRight]
    simp
  · have hmem : b ∈ (appendRight l (.node a .nil x r)).addrs ↔ b ∈ (AddrTree.node a l x r).addrs :=
      (perm_unroll a l x r).mem_iff
    rw [h.get]
    simp only [hmem]
    split_ifs with hb
    · rfl
    · simp only [AddrTree.addrs, List.mem_cons, List.mem_append, not_or] at hb
      have hlast : b ≠ lastPtr l := fun he => hb.2.1 (he ▸ lastPtr_mem hl)
      rw [Mem.get_modify_of_ne hb.1, Mem.get_modify_of_ne hlast]

/-- **The tree is cleared**, within a number of rounds that each free a node or cut a left
    link. -/
theorem Threaded.run_clear {m : ℕ} (nnodes : pint) (h : Threaded s NULL t) (hnd : t.addrs.Nodup)
    (h0 : NULL ∉ t.addrs) (hfuel : t.size ≤ fuel) (hm : t.size + leftLinks t < m) :
    ∃ s', (loop (pTreeClearStep fuel kd vd) m (t.ptr, nnodes)).run s =
        some (nnodes - Int32.ofNat t.size, s') ∧ Cleared kd vd s t s' := by
  induction m generalizing s t nnodes with
  | zero => omega
  | succ m ih =>
    cases t with
    | nil =>
      exact ⟨s, loop_done (by simp [pTreeClearStep, AddrTree.size]), rfl, rfl, fun b => by simp [AddrTree.addrs]⟩
    | node a l x r =>
      have hunroll := h.unroll hnd
      obtain ⟨⟨n, hn, hleft, hright, hpair⟩, hl, hr⟩ := h
      obtain ⟨hal, har, -, hrn, -⟩ := nodup_addrs_node hnd
      obtain ⟨ha0, hl0, hr0⟩ : NULL ≠ a ∧ NULL ∉ l.addrs ∧ NULL ∉ r.addrs := by
        simpa only [AddrTree.addrs, List.mem_cons, List.mem_append, not_or] using h0
      by_cases hlne : l = .nil
      · subst hlne
        have hstep := run_clearStep_free fuel kd vd nnodes (Ne.symm ha0) hn hleft
        rw [hright, entry_null, hpair] at hstep
        simp only [leftLinks, AddrTree.size] at hm hfuel
        obtain ⟨s', hrun, hs'⟩ :=
          ih (nnodes - 1) (hr.of_free har (notifiedPair kd vd x.pair s.world)) hrn hr0 (by omega) (by omega)
        refine ⟨s', ?_, hs'.of_free kd vd (Ne.symm ha0)⟩
        rw [AddrTree.ptr_node, loop_next hstep, hrun, sub_ofNat_size]
      · have hstep := run_clearStep_unroll fuel kd vd nnodes (Ne.symm ha0) hn hleft hlne hl hl0 hal
          (by rw [AddrTree.size] at hfuel; omega)
        have hperm := perm_unroll a l x r
        have hsize := size_unroll a l x r
        have hlinks : leftLinks (appendRight l (.node a .nil x r)) + 1 = leftLinks (.node a l x r) := by
          rw [leftLinks_appendRight, leftLinks_node hlne]
          rfl
        obtain ⟨s', hrun, hs'⟩ := ih nnodes (hunroll hlne) (hperm.nodup_iff.2 hnd)
          (fun hc => h0 (hperm.mem_iff.1 hc)) (by omega) (by omega)
        refine ⟨s', ?_, hs'.of_unroll kd vd hlne⟩
        rw [AddrTree.ptr_node, loop_next hstep, ← ptr_unroll hlne, hrun, hsize]

end

end Plibsys
