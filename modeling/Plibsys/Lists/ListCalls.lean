/-
  What each function of `plist.c` does to a list in memory.
-/
import Mathlib.Data.List.Basic
import Mathlib.Tactic.SplitIfs
import Plibsys.Lists.PList

namespace Plibsys.Lists

open Looping Chains

variable {ω : Type} {m : ListMem ω} {p q d n : ppointer} {l : Nodes ppointer}

/-! ## Memory accesses -/

theorem run_bind_of {α β : Type} {x : ListM ω α} {f : α → ListM ω β} {a : α} {m' : ListMem ω}
    (h : x.run m = some (a, m')) : (x >>= f).run m = (f a).run m' := by
  rw [StateT.run_bind, h]
  rfl

theorem run_deref (hp : p ≠ 0) (hcell : m.cells p = some ⟨d, n⟩) : (deref p).run m = some (⟨d, n⟩, m) := by
  change (if p = NULL then none else _) = _
  rw [if_neg hp, hcell]
  rfl

theorem run_data (hp : p ≠ 0) (hcell : m.cells p = some ⟨d, n⟩) : (data p).run m = some (d, m) :=
  run_bind_of (run_deref hp hcell)

theorem run_next (hp : p ≠ 0) (hcell : m.cells p = some ⟨d, n⟩) : (next p).run m = some (n, m) :=
  run_bind_of (run_deref hp hcell)

theorem run_setNext (hp : p ≠ 0) (hcell : m.cells p = some ⟨d, n⟩) :
    (setNext p q).run m = some ((), m.store p (some ⟨d, q⟩)) :=
  run_bind_of (run_deref hp hcell)

theorem run_setData (hp : p ≠ 0) (hcell : m.cells p = some ⟨d, n⟩) :
    (setData p q).run m = some ((), m.store p (some ⟨q, n⟩)) :=
  run_bind_of (run_deref hp hcell)

theorem run_pFree (hp : p ≠ 0) (hcell : m.cells p = some ⟨d, n⟩) :
    (pFree p).run m = some ((), m.store p none) :=
  run_bind_of (run_deref hp hcell)

@[simp] theorem store_self {c : Option PList} : (m.store p c).cells p = c := Function.update_self ..

theorem store_of_ne {c : Option PList} (h : q ≠ p) : (m.store p c).cells q = m.cells q :=
  Function.update_of_ne h ..

/-! ## Walks -/

/-- A node before another one is linked to a node. -/
theorem link_ne_null (h : Chain m.cells p l q) (hq : q ≠ 0) : p ≠ 0 := by
  cases l with
  | nil =>
    obtain rfl : p = q := h
    exact hq
  | cons e l => exact h.ne_zero

/-- The walk to the last node. -/
theorem iters_last (h : Chain m.cells p l q) (hq : q ≠ 0) : Iters lastStep l.length (p, m) (q, m) := by
  induction l generalizing p with
  | nil =>
    obtain rfl : p = q := h
    exact .refl
  | cons e l ih =>
    obtain ⟨a, x⟩ := e
    obtain ⟨rfl, ha, n, hcell, hrest⟩ := h
    refine .step ?_ (ih hrest)
    rw [lastStep, run_bind_of (run_next ha hcell), if_pos (link_ne_null hrest hq)]
    rfl

/-- The last node of a list. -/
theorem run_lastLoop {fuel : ℕ} {e : ℕ × ppointer} (h : Chain m.cells p (l ++ [e]) 0) (hfuel : l.length < fuel) :
    (loop lastStep fuel p).run m = some (e.1, m) := by
  obtain ⟨a, x⟩ := e
  obtain ⟨r, hwalk, rfl, ha, n, hcell, hend⟩ := chain_append.1 h
  obtain rfl : n = 0 := hend
  refine loop_eq (iters_last hwalk ha) ?_ hfuel
  rw [lastStep, run_bind_of (run_next ha hcell)]
  rfl

theorem iters_length (h : Chain m.cells p l q) (hq : q ≠ 0) (ret : psize) :
    Iters lengthStep l.length ((p, ret), m) ((q, ret + UInt64.ofNat l.length), m) := by
  induction l generalizing p ret with
  | nil =>
    obtain rfl : p = q := h
    rw [List.length_nil, show UInt64.ofNat 0 = 0 from rfl, UInt64.add_zero]
    exact .refl
  | cons e l ih =>
    obtain ⟨a, x⟩ := e
    obtain ⟨rfl, ha, n, hcell, hrest⟩ := h
    have hcount : ret + UInt64.ofNat (l.length + 1) = ret + 1 + UInt64.ofNat l.length := by
      rw [UInt64.ofNat_add, UInt64.add_assoc, UInt64.add_comm (UInt64.ofNat l.length)]
      rfl
    rw [List.length_cons, hcount]
    refine .step ?_ (ih hrest (ret + 1))
    rw [lengthStep, run_bind_of (run_next ha hcell), if_pos (link_ne_null hrest hq)]
    rfl

/-- **The number of the nodes**, in 64 bits. -/
theorem run_pListLength {fuel : ℕ} (h : Chain m.cells p l 0) (hfuel : l.length ≤ fuel) :
    (pListLength fuel p).run m = some (UInt64.ofNat l.length, m) := by
  rcases List.eq_nil_or_concat l with rfl | ⟨l, ⟨a, x⟩, rfl⟩
  · obtain rfl : p = 0 := h
    rfl
  · rw [List.concat_eq_append] at h hfuel ⊢
    have hp : p ≠ NULL := by
      cases l with
      | nil => exact h.ne_zero
      | cons e l => exact h.ne_zero
    obtain ⟨r, hwalk, rfl, ha, n, hcell, hend⟩ := chain_append.1 h
    obtain rfl : n = 0 := hend
    rw [List.length_append, List.length_singleton] at hfuel ⊢
    rw [pListLength, if_neg hp, UInt64.ofNat_add, UInt64.add_comm]
    refine loop_eq (iters_length hwalk ha 1) ?_ (by omega)
    rw [lengthStep, run_bind_of (run_next ha hcell)]
    rfl

theorem iters_foreach (func : PFunc ω) (user_data : ppointer) (h : Chain m.cells p l q) :
    Iters (foreachStep func user_data) l.length (p, m)
      (q, { m with world := (l.map Prod.snd).foldl (fun w d => func d user_data w) m.world }) := by
  induction l generalizing p m with
  | nil =>
    obtain rfl : p = q := h
    exact .refl
  | cons e l ih =>
    obtain ⟨a, x⟩ := e
    obtain ⟨rfl, ha, n, hcell, hrest⟩ := h
    refine .step ?_ (ih (m := { m with world := func x user_data m.world }) hrest)
    have hcall : (callback func x user_data).run m = some ((), { m with world := func x user_data m.world }) := rfl
    rw [foreachStep, if_neg ha, run_bind_of (run_data ha hcell), run_bind_of hcall]
    exact run_bind_of (run_next (m := { m with world := func x user_data m.world }) ha hcell)

/-- **Each value is handed out once, in order.** -/
theorem run_pListForeach {fuel : ℕ} (func : PFunc ω) (user_data : ppointer) (h : Chain m.cells p l 0)
    (hfuel : l.length < fuel) : (pListForeach fuel p (some func) user_data).run m =
      some ((), { m with world := (l.map Prod.snd).foldl (fun w d => func d user_data w) m.world }) := by
  by_cases hp : p = NULL
  · obtain rfl : l = [] := by
      subst hp
      exact h.eq_nil
    rw [pListForeach, if_pos hp]
    rfl
  · rw [pListForeach, if_neg hp]
    exact loop_eq (iters_foreach func user_data h) (by rfl) hfuel

/-! ## Changes -/

/-- The program gives a list with these values in the place of `l`, and leaves the world alone. -/
def Gives (prog : ListM ω ppointer) (m : ListMem ω) (l : Nodes ppointer) (values : List ppointer) : Prop :=
  ∃ p' m' l', prog.run m = some (p', m') ∧ Chain m'.cells p' l' 0 ∧ Replaces m.cells l m'.cells l' ∧
    l'.map Prod.snd = values ∧ m'.world = m.world

/-- An allocator gives `NULL` or the address of free memory. -/
def Malloc.Sound (malloc : Malloc) : Prop := ∀ k cells, malloc k cells = NULL ∨ cells (malloc k cells) = none

variable {malloc : Malloc} {fuel : ℕ}

/-- An allocation fails, or gives a node of zeros. -/
theorem run_pMalloc0 (hmalloc : malloc.Sound) :
    (malloc m.mallocs m.cells = NULL ∧
      (pMalloc0 malloc).run m = some (NULL, { m with mallocs := m.mallocs + 1 })) ∨
    ∃ b, b ≠ 0 ∧ m.cells b = none ∧ malloc m.mallocs m.cells = b ∧
      (pMalloc0 malloc).run m = some (b, { m with mallocs := m.mallocs + 1 }.store b (some ⟨NULL, NULL⟩)) := by
  by_cases hnull : malloc m.mallocs m.cells = NULL
  · refine .inl ⟨hnull, ?_⟩
    change some (_, if _ = NULL then _ else _) = _
    rw [if_pos hnull, hnull]
  · refine .inr ⟨_, hnull, (hmalloc _ _).resolve_left hnull, rfl, ?_⟩
    change some (_, if _ = NULL then _ else _) = _
    rw [if_neg hnull]

/-- A list that is not empty does not start at `NULL`. -/
theorem chain_null (h : Chain m.cells p l 0) : p = NULL ↔ l = [] := by
  constructor
  · rintro rfl
    exact h.eq_nil
  · rintro rfl
    exact h

/-- A function that needs a node for the value `d`: it gives the list back if there is no memory. -/
theorem run_item (hmalloc : malloc.Sound) (list d : ppointer) (f : ppointer → ListM ω ppointer)
    {prog : ListM ω ppointer}
    (hprog : prog = pMalloc0 malloc >>= fun item =>
      if item = NULL then pure list else setData item d >>= fun _ => f item) :
    (malloc m.mallocs m.cells = NULL ∧ prog.run m = some (list, { m with mallocs := m.mallocs + 1 })) ∨
    ∃ b m₁, b ≠ 0 ∧ malloc m.mallocs m.cells = b ∧ m.cells b = none ∧ m₁.cells b = some ⟨d, NULL⟩ ∧
      (∀ e, e ≠ b → m₁.cells e = m.cells e) ∧ m₁.world = m.world ∧ prog.run m = (f b).run m₁ := by
  rw [hprog]
  rcases run_pMalloc0 hmalloc with ⟨hnull, hrun⟩ | ⟨b, hb, hfree, hgiven, hrun⟩
  · exact .inl ⟨hnull, run_bind_of hrun⟩
  · refine .inr ⟨b, ({ m with mallocs := m.mallocs + 1 }.store b (some ⟨NULL, NULL⟩)).store b (some ⟨d, NULL⟩),
      hb, hgiven, hfree, store_self, fun e he => (store_of_ne he).trans (store_of_ne he), rfl, ?_⟩
    rw [run_bind_of hrun, if_neg hb, run_bind_of (run_setData hb store_self)]

/-- There is no memory for a node. -/
theorem gives_unchanged {prog : ListM ω ppointer} (h : Chain m.cells p l 0)
    (hrun : prog.run m = some (p, { m with mallocs := m.mallocs + 1 })) : Gives prog m l (l.map Prod.snd) :=
  ⟨p, { m with mallocs := m.mallocs + 1 }, l, hrun, h, Replaces.refl _ _, rfl, rfl⟩

/-- **The value is put in front**, unless there is no memory. -/
theorem gives_pListPrepend (hmalloc : malloc.Sound) (h : Chain m.cells p l 0) :
    Gives (pListPrepend malloc p d) m l
      (if malloc m.mallocs m.cells = NULL then l.map Prod.snd else d :: l.map Prod.snd) := by
  rcases run_item (m := m) hmalloc p d (fun item =>
    if p = NULL then pure item else setNext item p >>= fun _ => pure item)
    rfl with
    ⟨hnull, hrun⟩ | ⟨b, m₁, hb, hgiven, hfree, hcell, hother, hworld, hrun⟩
  · rw [if_pos hnull]
    exact gives_unchanged h hrun
  · rw [if_neg (by rw [hgiven]; exact hb)]
    by_cases hp : p = NULL
    · rw [if_pos hp] at hrun
      obtain ⟨hchain, hreplaces⟩ := h.link_front hb hfree (hp ▸ hcell) hother
      exact ⟨b, m₁, _, hrun, hchain, hreplaces, rfl, hworld⟩
    · rw [if_neg hp, run_bind_of (run_setNext hb hcell)] at hrun
      obtain ⟨hchain, hreplaces⟩ :=
        h.link_front hb hfree store_self fun e he => (store_of_ne he).trans (hother e he)
      exact ⟨b, _, _, hrun, hchain, hreplaces, rfl, hworld⟩

/-- **The value is put behind**, unless there is no memory. -/
theorem gives_pListAppend (hmalloc : malloc.Sound) (h : Chain m.cells p l 0) (hfuel : l.length ≤ fuel) :
    Gives (pListAppend malloc fuel p d) m l
      (if malloc m.mallocs m.cells = NULL then l.map Prod.snd else l.map Prod.snd ++ [d]) := by
  rcases run_item (m := m) hmalloc p d (fun item => if p = NULL then pure item else
      loop lastStep fuel p >>= fun cur => setNext cur item >>= fun _ => pure p)
    rfl with
    ⟨hnull, hrun⟩ | ⟨b, m₁, hb, hgiven, hfree, hcell, hother, hworld, hrun⟩
  · rw [if_pos hnull]
    exact gives_unchanged h hrun
  · rw [if_neg (by rw [hgiven]; exact hb)]
    rcases List.eq_nil_or_concat l with rfl | ⟨l, ⟨a, x⟩, rfl⟩
    · obtain rfl := (chain_null h).2 rfl
      rw [if_pos rfl] at hrun
      obtain ⟨hchain, hreplaces⟩ := h.link_front hb hfree hcell hother
      exact ⟨b, m₁, _, hrun, hchain, hreplaces, rfl, hworld⟩
    · rw [List.concat_eq_append] at h hfuel ⊢
      have hp : p ≠ NULL := by
        rw [Ne, chain_null h]
        exact List.append_ne_nil_of_right_ne_nil l (List.cons_ne_nil _ _)
      rw [List.length_append, List.length_singleton] at hfuel
      have hmem : b ∉ addrs (l ++ [(a, x)]) := by
        intro hmem
        have hsome := (h.cell hmem).1
        rw [hfree] at hsome
        cases hsome
      have hthere : Chain m₁.cells p (l ++ [(a, x)]) 0 := h.congr fun e he => hother e fun heq => hmem (heq ▸ he)
      obtain ⟨r, -, rfl, ha, n, hlast, -⟩ := chain_append.1 hthere
      have hne : b ≠ r := by
        rintro rfl
        exact hmem (by rw [addrs_append]; exact List.mem_append_right _ List.mem_cons_self)
      rw [if_neg hp, run_bind_of (run_lastLoop hthere hfuel), run_bind_of (run_setNext ha hlast)] at hrun
      obtain ⟨hchain, hreplaces⟩ := h.link_last hb hfree (store_self (m := m₁) (p := r))
        ((store_of_ne hne).trans hcell) fun e her heb => (store_of_ne her).trans (hother e heb)
      refine ⟨p, _, _, hrun, hchain, hreplaces, ?_, hworld⟩
      rw [List.map_append]
      rfl

/-! ## Removal -/

/-- The nodes before the first one with the value. -/
theorem iters_remove {list : ppointer} (h : Chain m.cells p l q) (hd : ∀ e ∈ l, e.2 ≠ d) (prev : ppointer) :
    Iters (removeStep list d) l.length ((prev, p), m) ((((addrs l).getLast?).getD prev, q), m) := by
  induction l generalizing p prev with
  | nil =>
    obtain rfl : p = q := h
    exact .refl
  | cons e l ih =>
    obtain ⟨a, x⟩ := e
    obtain ⟨rfl, ha, n, hcell, hrest⟩ := h
    have hlast : ((addrs ((p, x) :: l)).getLast?).getD prev = ((addrs l).getLast?).getD p := by
      rw [addrs_cons, List.getLast?_cons]
      rfl
    rw [hlast]
    refine .step ?_ (ih hrest (fun e he => hd e (List.mem_cons_of_mem _ he)) p)
    rw [removeStep, if_neg ha, run_bind_of (run_data ha hcell), if_neg (hd _ List.mem_cons_self),
      run_bind_of (run_next ha hcell)]
    rfl

theorem exists_first (hd : d ∈ l.map Prod.snd) : ∃ l₁ a l₂, l = l₁ ++ (a, d) :: l₂ ∧ ∀ e ∈ l₁, e.2 ≠ d := by
  induction l with
  | nil => cases hd
  | cons e l ih =>
    obtain ⟨a, x⟩ := e
    by_cases hx : x = d
    · subst hx
      refine ⟨[], a, l, rfl, ?_⟩
      intro e he
      cases he
    · rcases List.mem_cons.1 hd with heq | hd
      · exact absurd heq.symm hx
      · obtain ⟨l₁, b, l₂, rfl, hbefore⟩ := ih hd
        refine ⟨(a, x) :: l₁, b, l₂, rfl, ?_⟩
        rintro e he
        rcases List.mem_cons.1 he with rfl | he
        · exact hx
        · exact hbefore e he

/-- **The first node with the value is taken out and freed.** -/
theorem gives_pListRemove (h : Chain m.cells p l 0) (hfuel : l.length < fuel) :
    Gives (pListRemove fuel p d) m l ((l.map Prod.snd).erase d) := by
  by_cases hp : p = NULL
  · obtain rfl := (chain_null h).1 hp
    refine ⟨NULL, m, [], ?_, rfl, Replaces.refl _ _, rfl, rfl⟩
    rw [pListRemove, if_pos hp]
    rfl
  rw [Gives, pListRemove, if_neg hp]
  by_cases hd : d ∈ l.map Prod.snd
  · obtain ⟨l₁, a, l₂, rfl, hbefore⟩ := exists_first hd
    obtain ⟨r, hwalk, rfl, ha, n, hcell, -⟩ := chain_append.1 h
    rw [List.length_append, List.length_cons] at hfuel
    have hvalues : ((l₁ ++ (r, d) :: l₂).map Prod.snd).erase d = (l₁ ++ l₂).map Prod.snd := by
      rw [List.map_append, List.map_cons, List.erase_append_right, List.erase_cons_head, List.map_append]
      intro hmem
      obtain ⟨e, he, heq⟩ := List.mem_map.1 hmem
      exact hbefore e he heq
    rw [hvalues]
    have hsteps := @iters_remove _ _ _ _ _ _ p hwalk hbefore NULL
    rcases List.eq_nil_or_concat l₁ with rfl | ⟨l₁, ⟨b, y⟩, rfl⟩
    · obtain rfl : p = r := hwalk
      obtain ⟨n', hcell', hchain, hreplaces⟩ := h.unlink_front (store_self (m := m) (p := p))
        fun e he => store_of_ne he
      rw [hcell] at hcell'
      cases hcell'
      refine ⟨n, m.store p none, l₂, loop_eq hsteps ?_ (by omega), hchain, hreplaces, rfl, rfl⟩
      rw [removeStep, if_neg ha, run_bind_of (run_data ha hcell), if_pos rfl]
      change ((if NULL = NULL then _ else _ : ListM ω _)).run m = _
      rw [if_pos rfl, run_bind_of (run_next ha hcell), run_bind_of (run_pFree ha hcell)]
      rfl
    · rw [List.concat_eq_append] at *
      obtain ⟨s, -, rfl, hs, r', hprev, hlink⟩ := chain_append.1 hwalk
      obtain rfl : r' = r := hlink
      rw [addrs_append, List.getLast?_append,
        show (((addrs [(s, y)]).getLast?.or (addrs l₁).getLast?).getD NULL) = s from rfl] at hsteps
      have hne : r' ≠ s := by
        rintro rfl
        have hnodup := h.nodup
        simp only [addrs_append, addrs_cons, addrs_nil] at hnodup
        exact (List.nodup_append.1 hnodup).2.2 r'
          (List.mem_append_right _ List.mem_cons_self) r' List.mem_cons_self rfl
      rw [List.append_assoc, List.singleton_append] at h ⊢
      obtain ⟨hchain, hreplaces⟩ := h.unlink n hcell ((store_of_ne hne.symm).trans store_self)
        (store_self (m := m.store s (some ⟨y, n⟩)) (p := r'))
        fun e he he' => (store_of_ne he).trans (store_of_ne he')
      rw [List.append_assoc, List.singleton_append]
      refine ⟨p, _, _, loop_eq hsteps ?_ (by omega), hchain, hreplaces, rfl, rfl⟩
      rw [removeStep, if_neg ha, run_bind_of (run_data ha hcell), if_pos rfl]
      change ((if s = NULL then _ else _ : ListM ω _)).run m = _
      rw [if_neg hs, run_bind_of (run_next ha hcell), run_bind_of (run_setNext hs hprev),
        run_bind_of (run_pFree ha ((store_of_ne hne).trans hcell))]
      rfl
  · have hbefore : ∀ e ∈ l, e.2 ≠ d := by
      rintro e he rfl
      exact hd (List.mem_map_of_mem he)
    refine ⟨p, m, l, ?_, h, Replaces.refl _ _, (List.erase_of_not_mem hd).symm, rfl⟩
    exact loop_eq (iters_remove h hbefore NULL) rfl hfuel

/-! ## Reversal -/

/-- The nodes `l` are hung in front of those that have been turned already. -/
theorem iters_reverse {done : Nodes ppointer} {prev : ppointer} (h : Chain m.cells p l 0)
    (hdone : Chain m.cells prev done 0) (hdisj : ∀ a ∈ addrs l, a ∉ addrs done) : ∃ m' prev',
      Iters reverseStep l.length ((prev, p), m) ((prev', 0), m') ∧ Chain m'.cells prev' (l.reverse ++ done) 0 ∧
      (∀ a, a ∉ addrs l → m'.cells a = m.cells a) ∧ m'.world = m.world := by
  induction l generalizing p m done prev with
  | nil =>
    obtain rfl : p = 0 := h
    exact ⟨m, prev, .refl, hdone, fun _ _ => rfl, rfl⟩
  | cons e l ih =>
    obtain ⟨a, x⟩ := e
    have hnodup := h.nodup
    obtain ⟨rfl, ha, n, hcell, hrest⟩ := h
    obtain ⟨hmem, -⟩ := List.nodup_cons.1 hnodup
    have hrest' : Chain (m.store p (some ⟨x, prev⟩)).cells n l 0 :=
      hrest.congr fun e he => store_of_ne fun heq => hmem (heq ▸ he)
    have hdone' : Chain (m.store p (some ⟨x, prev⟩)).cells p ((p, x) :: done) 0 := by
      refine ⟨rfl, ha, prev, store_self, hdone.congr fun e he => store_of_ne ?_⟩
      rintro rfl
      exact hdisj e List.mem_cons_self he
    obtain ⟨m', prev', hsteps, hchain, hframe, hworld⟩ := ih hrest' hdone' fun e he hin => by
      rcases List.mem_cons.1 hin with rfl | hin
      · exact hmem he
      · exact hdisj e (List.mem_cons_of_mem _ he) hin
    refine ⟨m', prev', .step ?_ hsteps, ?_, ?_, hworld⟩
    · rw [reverseStep, if_pos ha, run_bind_of (run_next ha hcell), run_bind_of (run_setNext ha hcell)]
      rfl
    · rw [List.reverse_cons, List.append_assoc]
      exact hchain
    · intro e he
      rw [addrs_cons, List.mem_cons, not_or] at he
      exact (hframe e he.2).trans (store_of_ne he.1)

/-- **The nodes are turned round**, and none is copied. -/
theorem gives_pListReverse (h : Chain m.cells p l 0) (hfuel : l.length ≤ fuel) :
    Gives (pListReverse fuel p) m l (l.map Prod.snd).reverse := by
  cases l with
  | nil =>
    obtain rfl := (chain_null h).2 rfl
    exact ⟨NULL, m, [], rfl, rfl, Replaces.refl _ _, rfl, rfl⟩
  | cons e l =>
    obtain ⟨a, x⟩ := e
    have hnodup := h.nodup
    obtain ⟨rfl, ha, n, hcell, hrest⟩ := h
    obtain ⟨hmem, -⟩ := List.nodup_cons.1 hnodup
    have hrest' : Chain (m.store p (some ⟨x, NULL⟩)).cells n l 0 :=
      hrest.congr fun e he => store_of_ne fun heq => hmem (heq ▸ he)
    have hdone : Chain (m.store p (some ⟨x, NULL⟩)).cells p [(p, x)] 0 := ⟨rfl, ha, NULL, store_self, rfl⟩
    obtain ⟨m', prev', hsteps, hchain, hframe, hworld⟩ := iters_reverse hrest' hdone fun e he hin =>
      hmem (List.mem_singleton.1 hin ▸ he)
    have hsame : ∀ e, e ∈ addrs ((p, x) :: l) ↔ e ∈ addrs (l.reverse ++ [(p, x)]) := by
      intro e
      rw [addrs_append, addrs_reverse, List.mem_append, List.mem_reverse, addrs_cons, List.mem_cons,
        addrs_cons, addrs_nil,
        List.mem_singleton, or_comm]
    refine ⟨prev', m', l.reverse ++ [(p, x)], ?_, hchain, ⟨?_, ?_, ?_⟩, ?_, hworld⟩
    · rw [pListReverse, if_neg ha, run_bind_of (run_next ha hcell), run_bind_of (run_setNext ha hcell)]
      exact loop_eq hsteps rfl hfuel
    · intro e he _
      rw [addrs_cons, List.mem_cons, not_or] at he
      exact (hframe e he.2).trans (store_of_ne he.1)
    · intro e he hnot
      exact absurd ((hsame e).1 he) hnot
    · intro e he hnot
      exact absurd ((hsame e).2 he) hnot
    · rw [List.map_append, List.map_reverse, List.map_cons]
      exact List.reverse_cons.symm

/-! ## The end of a list -/

/-- The nodes up to `q` are freed. -/
theorem iters_free (h : Chain m.cells p l 0) : ∃ m', Iters freeStep l.length ((p, p), m) ((0, 0), m') ∧
    Replaces m.cells l m'.cells [] ∧ m'.world = m.world := by
  induction l generalizing p m with
  | nil =>
    obtain rfl : p = 0 := h
    exact ⟨m, .refl, Replaces.refl _ _, rfl⟩
  | cons e l ih =>
    obtain ⟨a, x⟩ := e
    obtain ⟨n, hcell, hchain, hreplaces⟩ := h.unlink_front (store_self (m := m) (p := a))
      fun e he => store_of_ne he
    obtain ⟨rfl, ha, -⟩ := h
    obtain ⟨m', hsteps, hrest, hworld⟩ := ih hchain
    refine ⟨m', .step ?_ hsteps, hreplaces.trans hrest fun e he => List.mem_cons_of_mem _ he, hworld⟩
    rw [freeStep, if_pos ⟨ha, ha⟩, run_bind_of (run_next ha hcell), run_bind_of (run_pFree ha hcell)]
    rfl

/-- **Every node is freed**, once. -/
theorem gives_pListFree (h : Chain m.cells p l 0) (hfuel : l.length < fuel) :
    Gives (do pListFree fuel p; return NULL) m l [] := by
  obtain ⟨m', hrun, hreplaces, hworld⟩ : ∃ m', (pListFree fuel p).run m = some ((), m') ∧
      Replaces m.cells l m'.cells [] ∧ m'.world = m.world := by
    by_cases hp : p = NULL
    · obtain rfl := (chain_null h).1 hp
      refine ⟨m, ?_, Replaces.refl _ _, rfl⟩
      rw [pListFree, if_pos hp]
      rfl
    · obtain ⟨m', hsteps, hreplaces, hworld⟩ := iters_free h
      refine ⟨m', ?_, hreplaces, hworld⟩
      rw [pListFree, if_neg hp]
      exact loop_eq hsteps rfl hfuel
  exact ⟨NULL, m', [], run_bind_of hrun, rfl, hreplaces, rfl, hworld⟩

/-- The last node. -/
theorem run_pListLast (h : Chain m.cells p l 0) (hfuel : l.length ≤ fuel) :
    (pListLast fuel p).run m = some (((addrs l).getLast?).getD NULL, m) := by
  rcases List.eq_nil_or_concat l with rfl | ⟨l, e, rfl⟩
  · obtain rfl := (chain_null h).2 rfl
    rfl
  · rw [List.concat_eq_append] at h hfuel ⊢
    have hp : p ≠ NULL := by
      rw [Ne, chain_null h]
      exact List.append_ne_nil_of_right_ne_nil l (List.cons_ne_nil _ _)
    rw [List.length_append, List.length_singleton] at hfuel
    rw [pListLast, if_neg hp, run_lastLoop h hfuel, addrs_append, List.getLast?_append]
    rfl

end Plibsys.Lists
