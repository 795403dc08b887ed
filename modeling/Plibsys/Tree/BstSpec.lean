/-
  Insertion into and removal from an unbalanced binary search tree.
-/
import Plibsys.Tree.Change

namespace Plibsys

open Looping Linked

variable {ω : Type} {s : Mem Unit ω} {k : Ctx (Item Unit)} {t l r u : AddrTree (Item Unit)} {x y : Item Unit}
  {a fuel : ℕ} {d : Side} {compare_func : PCompareDataFunc} {kd vd : Option (PDestroyFunc ω)} {key value : ppointer}

/-- **Insertion.** -/
theorem run_pTreeBstInsert {mem : ppointer} (h : Holds (baseLayout Unit) s [] t)
    (hd : AddrTree.Directed (fun p => compare_func key p.1) (pairs t)) (hfuel : t.size < fuel)
    (h0 : mem ≠ NULL) (hfree : s.get mem = none) :
    ∃ s' t' b, (pTreeBstInsert fuel compare_func kd vd key value mem).run s = some (b, s') ∧
      Holds (baseLayout Unit) s' [] t' ∧
      InsertEffect compare_func kd vd key value (pairs t) s.world (pairs t') s'.world b := by
  obtain ⟨p, hfind, -⟩ := run_findLink compare_func key h hfuel
  rcases hs : t.search (keyCmp compare_func key) [] with ⟨k, u⟩
  have hplug := plug_of_search hs
  rw [hs] at hfind
  have hku : Holds (baseLayout Unit) s k u := Zip.refocus h (by simpa [Ctx.plug] using hplug)
  have hread := run_readLink hku
  cases u with
  | node a l x r =>
    have ha : a ≠ 0 := hku.ne_null (by simp)
    obtain ⟨s', hrun, h', hw⟩ := hku.run_replacePair kd vd key value
    refine ⟨s', _, false, ?_, zip_plug.1 h', hw ▸ insertEffect_replaced hs hd⟩
    simp [pTreeBstInsert, hfind, hread, ha, hrun]
  | nil =>
    obtain ⟨s', hwrite, hnew, h', hw⟩ := hku.run_graft (x := ⟨key, value, ()⟩) h0 hfree rfl
    refine ⟨s', _, true, ?_, zip_plug.1 h', hw ▸ insertEffect_added hs hd rfl rfl⟩
    have hnew' : (newNode mem ⟨NULL, NULL, key, value, ()⟩).run (s.hookRoot (baseLayout Unit) k mem) =
        some ((), s') := hnew
    simp [pTreeBstInsert, hfind, hread, hwrite, h0, hnew']

/-- A node with at most one child is bypassed and freed. -/
theorem run_bstUnlink (h : Holds (baseLayout Unit) s k (.nodeS d a .nil x u)) :
    ∃ s₁ s', (writeLink u.ptr (linkTo k)).run s = some ((), s₁) ∧ (freeNode kd vd a).run s₁ = some ((), s') ∧
      Holds (baseLayout Unit) s' [] (Ctx.plug k u) ∧ s'.world = notifiedPair kd vd x.pair s.world := by
  obtain ⟨hau, hak, huk, hf⟩ := h.child_apart
  have hroot := Mem.root_hookRoot (N := baseLayout Unit) (q := u.ptr) h.root_eq
  have h₁ : Holds (baseLayout Unit) (s.hookRoot (baseLayout Unit) k u.ptr) k u := by
    show Zip (baseLayout Unit).toLayout _ (Mem.hookRoot _ _ _ _).root _ _
    rw [hroot]
    refine Zip.unlink h (fun hu => ?_) (fun f hfk => ?_) fun b _ _ hbk => ?_
    · rw [Mem.get_hookRoot, Mem.get_hook_of_ne (huk hu).2]
      exact Option.map_id'.symm
    · rw [Mem.get_hookRoot, Mem.get_hook_head f hfk]
    · rw [Mem.get_hookRoot, Mem.get_hook_of_ne hbk]
  have hg : (s.hookRoot (baseLayout Unit) k u.ptr).get a =
      some ((baseLayout Unit).cellS d 0 u.ptr (Ctx.par k) x) := by
    rw [Mem.get_hookRoot, Mem.get_hook_of_ne hak, h.getS]
    rfl
  obtain ⟨s', hfree, h', hw⟩ := h.run_freeBypassed kd vd h₁ rfl hg
  exact ⟨_, s', run_writeLink h, hfree, zip_plug.1 h', by rw [hw, Mem.world_hookRoot]⟩

/-- The node to be removed, with the link to it. -/
theorem run_pTreeBstMark (h : Holds (baseLayout Unit) s [] t)
    (hs : t.search (keyCmp compare_func key) [] = (k, .node a l x r))
    (hd : AddrTree.Directed (fun p => compare_func key p.1) (pairs t)) (hfuel : t.size ≤ fuel) :
    ∃ s' k' d b u y, (pTreeBstMark fuel (linkTo k) a).run s = some ((linkTo k', b), s') ∧
      Holds (baseLayout Unit) s' k' (.nodeS d b .nil y u) ∧
      RemoveEffect compare_func kd vd key t s.world (pairs (Ctx.plug k' u))
        (notifiedPair kd vd y.pair s'.world) true := by
  have hplug := plug_of_search hs
  have hk : Holds (baseLayout Unit) s k (.node a l x r) := Zip.refocus h (by simpa [Ctx.plug] using hplug)
  have hg := hk.get
  by_cases hlr : l = .nil ∨ r = .nil
  · obtain ⟨d, u, hu⟩ := exists_nodeS_nil (a := a) (x := x) hlr
    refine ⟨s, k, d, a, u, x, ?_, hu ▸ hk, removeEffect_self (hu ▸ hs) hd⟩
    rcases hlr with rfl | rfl <;> simp [pTreeBstMark, hg]
  · obtain ⟨hl, hr⟩ := not_or.1 hlr
    have hlfuel : l.size ≤ fuel := by
      have := Ctx.size_plug k (.node a l x r)
      rw [hplug, AddrTree.size] at this
      omega
    obtain ⟨k₁, b, l', y, hmost, hl', hafter⟩ := AddrTree.rightmost_spec hl (⟨.left, a, x, r⟩ :: k)
    have hprev := run_pTreeBstPrev_loop hk.left hl hlfuel
    rw [hmost] at hprev
    have hb : Holds (baseLayout Unit) s (k₁ ++ ⟨.left, a, x, r⟩ :: k) (.node b l' y .nil) :=
      zip_append.2 (hl' ▸ hk.left)
    obtain ⟨s', hset, hs', hw⟩ := hk.run_setKeyValue y.key y.value
    have hl0 : l.ptr ≠ 0 := hk.left.ne_null hl
    have hr0 : r.ptr ≠ 0 := hk.right.ne_null hr
    refine ⟨s', k₁ ++ ⟨.left, a, x.withPair y.pair, r⟩ :: k, .right, b, l', y, ?_,
      zip_append.2 (hl' ▸ hs'.left), ?_⟩
    · have hlink : linkTo (k₁ ++ ⟨.left, a, x, r⟩ :: k) =
        linkTo (k₁ ++ ⟨.left, a, x.withPair y.pair, r⟩ :: k) := by
        cases k₁ <;> rfl
      have hprev' : (pTreeBstPrev fuel a).run s = some ((linkTo (k₁ ++ ⟨.left, a, x, r⟩ :: k), b), s) := by
        simp only [pTreeBstPrev, StateT.run_bind, run_left, hg, Option.map_some, Option.bind_eq_bind,
          Option.bind_some, (baseLayout Unit).cell_left]
        exact hprev
      simp [pTreeBstMark, hg, hl0, hr0, hprev', hb.get, hset, hlink]
    · rw [hw]
      exact removeEffect_prev hs hd hl hr hl' hafter

/-- **Removal.** -/
theorem run_pTreeBstRemove (h : Holds (baseLayout Unit) s [] t)
    (hd : AddrTree.Directed (fun p => compare_func key p.1) (pairs t)) (hfuel : t.size < fuel) :
    ∃ s' t' b, (pTreeBstRemove fuel compare_func kd vd key).run s = some (b, s') ∧
      Holds (baseLayout Unit) s' [] t' ∧
      RemoveEffect compare_func kd vd key t s.world (pairs t') s'.world b := by
  obtain ⟨p, hfind, -⟩ := run_findLink compare_func key h hfuel
  rcases hs : t.search (keyCmp compare_func key) [] with ⟨k, u⟩
  rw [hs] at hfind
  have hku : Holds (baseLayout Unit) s k u := Zip.refocus h (by simpa [Ctx.plug] using plug_of_search hs)
  have hread := run_readLink hku
  cases u with
  | nil =>
    refine ⟨s, t, false, ?_, h, removeEffect_absent hs hd⟩
    simp [pTreeBstRemove, hfind, hread]
  | node a l x r =>
    have ha : a ≠ 0 := hku.ne_null (by simp)
    obtain ⟨s₁, k', d, b, u, y, hmark, h₁, heff⟩ := run_pTreeBstMark h hs hd (Nat.le_of_lt hfuel)
    obtain ⟨s₂, s', hwrite, hfree, h', hw⟩ := run_bstUnlink h₁
    refine ⟨s', _, true, ?_, h', hw ▸ heff⟩
    simp [pTreeBstRemove, hfind, hread, ha, hmark, h₁.run_onlyChild, hwrite, hfree]

end Plibsys
