/-
  The tree functions as operations on a finite map, for the three tree types alike.

  `HoldsMap type s t m` says that the memory `s` holds the tree `t`, balanced as the type
  asks for, with the bindings of the map `m` in order.
-/
import Plibsys.Lib.SortedMap
import Plibsys.Tree.BstSpec
import Plibsys.Tree.RbInsert
import Plibsys.Tree.RbRemove
import Plibsys.Tree.AvlInsert
import Plibsys.Tree.AvlRemove
import Plibsys.Tree.Traversal

namespace Plibsys

open Looping Linked SortedMaps

/-! ## The three types -/

namespace PTreeType

/-- What a node of the tree type has besides its links and its binding. -/
def Tag : PTreeType → Type
  | binary => Unit
  | rb => PTreeRBColor
  | avl => pint

def layout : (type : PTreeType) → NodeLayout type.Ext type.Tag
  | binary => baseLayout Unit
  | rb => parentLayout PTreeRBColor
  | avl => parentLayout pint

/-- The balance that the tree type keeps. -/
def Balanced : (type : PTreeType) → AddrTree (Item type.Tag) → Prop
  | binary => fun _ => True
  | rb => fun t => ∃ n, RbTree .black n t
  | avl => AvlBalanced

theorem balanced_nil (type : PTreeType) : type.Balanced .nil := by
  cases type
  · trivial
  · exact ⟨0, .nil⟩
  · trivial

/-- A node with a new key-value pair keeps its colour or balance factor. -/
theorem balanced_plug_pair {type : PTreeType} {k : Ctx (Item type.Tag)} {a : ppointer}
    {l r : AddrTree (Item type.Tag)} {x : Item type.Tag} (p : ppointer × ppointer)
    (h : type.Balanced (Ctx.plug k (.node a l x r))) :
    type.Balanced (Ctx.plug k (.node a l (x.withPair p) r)) := by
  cases type with
  | binary => trivial
  | rb =>
    obtain ⟨n, hn⟩ := h
    exact rbTree_plug_item (d := .left) hn rfl
  | avl => exact avlBalanced_plug_item (d := .left) h rfl

end PTreeType

/-- The memory holds the map `m` as the tree `t`. -/
structure HoldsMap {ω : Type} (type : PTreeType) {c : Comparison ppointer} (s : Mem type.Ext ω)
    (t : AddrTree (Item type.Tag)) (m : SortedMap c ppointer) : Prop where
  holds : Holds type.layout s [] t
  balanced : type.Balanced t
  pairs_eq : pairs t = m.entries

section
variable {ω : Type} {type : PTreeType} {c : Comparison ppointer} {s : Mem type.Ext ω}
  {t : AddrTree (Item type.Tag)} {m : SortedMap c ppointer} {fuel : ℕ} {kd vd : Option (PDestroyFunc ω)}
  {key value mem : ppointer}

/-! ## The effects as operations on maps -/

theorem KeyPlace.splitAt {bef aft : List (ppointer × ppointer)} (h : KeyPlace c.cmp key bef aft)
    (mid : List (ppointer × ppointer)) (hmid : ∀ p ∈ mid, c.cmp key p.1 = 0)
    (hps : m.entries = bef ++ mid ++ aft) : SplitAt c key m.entries bef mid aft :=
  ⟨hps, h.before, hmid, h.after⟩

theorem InsertEffect.eq {w w' : ω} {ps : List (ppointer × ppointer)} {b : Bool}
    (h : InsertEffect c.cmp kd vd key value m.entries w ps w' b) :
    ps = (m.insert key value).entries ∧ w' = notifiedAll kd vd (m.bindings key) w ∧ b = !m.contains key := by
  generalize he : m.entries = es at h
  cases h with
  | @replaced bef aft old hp hps h0 =>
    have hs := hp.splitAt (m := m) [old] (by simpa using h0) (by simp [he, hps])
    rw [hs.insert_entries, SortedMap.contains, hs.bindings_eq]
    exact ⟨rfl, rfl, rfl⟩
  | @added bef aft hp hps =>
    have hs := hp.splitAt (m := m) [] (by simp) (by simp [he, hps])
    rw [hs.insert_entries, SortedMap.contains, hs.bindings_eq]
    exact ⟨rfl, rfl, rfl⟩

theorem RemoveEffect.eq {w w' : ω} {ps : List (ppointer × ppointer)} {b : Bool} (hpairs : pairs t = m.entries)
    (h : RemoveEffect c.cmp kd vd key t w ps w' b) :
    ps = (m.erase key).entries ∧ b = m.contains key ∧
      (¬ InTwoChildNode c.cmp key t → w' = notifiedAll kd vd (m.bindings key) w) := by
  cases h with
  | @absent bef aft hp hps =>
    have hs := hp.splitAt (m := m) [] (by simp) (by simp [← hpairs, hps])
    rw [hs.erase_entries, SortedMap.contains, hs.bindings_eq]
    exact ⟨hps, rfl, fun _ => rfl⟩
  | @removed bef aft old freed hp hps h0 hone _ =>
    have hs := hp.splitAt (m := m) [old] (by simpa using h0) (by simp [← hpairs, hps])
    rw [hs.erase_entries, SortedMap.contains, hs.bindings_eq]
    exact ⟨rfl, rfl, fun h => by rw [hone h]; rfl⟩

/-! ## Insertions without memory -/

/-- What the insertions of all three types do when `p_malloc0` returns `NULL`. -/
def insertWithoutMemory {E : Type} (fuel : ℕ) (compare_func : PCompareDataFunc) (kd vd : Option (PDestroyFunc ω))
    (key value : ppointer) : TreeM E ω Bool := do
  let (cur_node, _) ← findLink fuel compare_func key
  if (← readLink cur_node) ≠ NULL then
    replacePair key kd vd value (← readLink cur_node)
  else
    writeLink NULL cur_node
  return false

theorem insertNodeFunc_null (type : PTreeType) (compare_func : PCompareDataFunc) :
    insertNodeFunc fuel type compare_func kd vd key value NULL =
      insertWithoutMemory fuel compare_func kd vd key value := by
  cases type with
  | binary =>
    simp [insertNodeFunc, pTreeBstInsert, insertWithoutMemory]
    rfl
  | rb =>
    simp [insertNodeFunc, pTreeRbInsert, insertWithoutMemory]
    rfl
  | avl =>
    simp [insertNodeFunc, pTreeAvlInsert, insertWithoutMemory]
    rfl

/-! ## The functions -/

namespace HoldsMap

theorem size_eq (h : HoldsMap type s t m) : t.size = m.size := by
  rw [SortedMap.size, ← h.pairs_eq, pairs, List.length_map, AddrTree.length_toList]

theorem directed (h : HoldsMap type s t m) (key : ppointer) :
    AddrTree.Directed (fun p => c.cmp key p.1) (pairs t) :=
  h.pairs_eq ▸ m.directed key

variable (kd vd)

/-- **Insertion.** -/
theorem run_insertNodeFunc (h : HoldsMap type s t m) (key value : ppointer) (hfuel : m.size < fuel)
    (h0 : mem ≠ NULL)
    (hfree : s.get mem = none) :
    ∃ s' t', (insertNodeFunc fuel type c.cmp kd vd key value mem).run s = some (!m.contains key, s') ∧
      HoldsMap type s' t' (m.insert key value) ∧
      s'.world = notifiedAll kd vd (m.bindings key) s.world := by
  have hd := h.directed key
  rw [← h.size_eq] at hfuel
  have hspec : ∃ s' t' b, (insertNodeFunc fuel type c.cmp kd vd key value mem).run s = some (b, s') ∧
      Holds type.layout s' [] t' ∧ type.Balanced t' ∧
      InsertEffect c.cmp kd vd key value (pairs t) s.world (pairs t') s'.world b := by
    cases type with
    | binary =>
      obtain ⟨s', t', b, hrun, h', heff⟩ := run_pTreeBstInsert h.holds hd hfuel h0 hfree
      exact ⟨s', t', b, hrun, h', trivial, heff⟩
    | rb =>
      obtain ⟨n, hbal⟩ := h.balanced
      obtain ⟨s', t', b, n', hrun, h', hbal', heff⟩ := run_pTreeRbInsert h.holds hbal hd hfuel h0 hfree
      exact ⟨s', t', b, hrun, h', ⟨n', hbal'⟩, heff⟩
    | avl => exact run_pTreeAvlInsert h.holds h.balanced hd hfuel h0 hfree
  obtain ⟨s', t', b, hrun, h', hbal, heff⟩ := hspec
  rw [h.pairs_eq] at heff
  obtain ⟨hps, hw, rfl⟩ := heff.eq
  exact ⟨s', t', hrun, ⟨h', hbal, hps⟩, hw⟩

/-- **Insertion without memory** returns `FALSE`.  An existing node gets the new key-value pair,
    otherwise nothing changes. -/
theorem run_insertNodeFunc_null (h : HoldsMap type s t m) (key value : ppointer) (hfuel : m.size < fuel) :
    ∃ s' t', (insertNodeFunc fuel type c.cmp kd vd key value NULL).run s = some (false, s') ∧
      if m.contains key then HoldsMap type s' t' (m.insert key value) else s' = s ∧ t' = t := by
  rw [← h.size_eq] at hfuel
  obtain ⟨p, hfind, -⟩ := run_findLink c.cmp key h.holds hfuel
  rcases hs : t.search (keyCmp c.cmp key) [] with ⟨k, u⟩
  rw [hs] at hfind
  have hplug := plug_of_search hs
  have hku : Holds type.layout s k u := Zip.refocus h.holds (by simpa [Ctx.plug] using hplug)
  have hread := run_readLink hku
  rw [insertNodeFunc_null]
  cases u with
  | nil =>
    have hbind : m.bindings key = [] := by
      have hsplit := (keyPlace_search hs (h.directed key)).splitAt (m := m) [] (by simp)
        (by rw [← h.pairs_eq, ← hplug, pairs_plug]; simp)
      exact hsplit.bindings_eq
    have hwrite := hku.run_writeLink_null
    refine ⟨s, t, ?_, ?_⟩
    · simp [insertWithoutMemory, hfind, hread, hwrite]
    · simp [SortedMap.contains, hbind]
  | node a l x r =>
    have ha : a ≠ 0 := hku.ne_null (by simp)
    obtain ⟨s', hrun, h', -⟩ := hku.run_replacePair kd vd key value
    have heff : InsertEffect c.cmp kd vd key value (pairs t) s.world
        (pairs (Ctx.plug k (.node a l (x.withPair (key, value)) r))) (notifiedPair kd vd x.pair s.world) false :=
      insertEffect_replaced hs (h.directed key)
    rw [h.pairs_eq] at heff
    obtain ⟨hpairs, -, hcontains⟩ := heff.eq
    refine ⟨s', Ctx.plug k (.node a l (x.withPair (key, value)) r), ?_, ?_⟩
    · simp [insertWithoutMemory, hfind, hread, ha, hrun]
    · rw [if_pos (by simpa using hcontains.symm)]
      exact ⟨zip_plug.1 h', PTreeType.balanced_plug_pair _ (hplug.symm ▸ h.balanced), hpairs⟩

/-- **Removal.** -/
theorem run_removeNodeFunc (h : HoldsMap type s t m) (key : ppointer) (hfuel : m.size < fuel) :
    ∃ s' t', (removeNodeFunc fuel type c.cmp kd vd key).run s = some (m.contains key, s') ∧
      HoldsMap type s' t' (m.erase key) ∧
      (¬ InTwoChildNode c.cmp key t → s'.world = notifiedAll kd vd (m.bindings key) s.world) := by
  have hd := h.directed key
  rw [← h.size_eq] at hfuel
  have hspec : ∃ s' t' b, (removeNodeFunc fuel type c.cmp kd vd key).run s = some (b, s') ∧
      Holds type.layout s' [] t' ∧ type.Balanced t' ∧
      RemoveEffect c.cmp kd vd key t s.world (pairs t') s'.world b := by
    cases type with
    | binary =>
      obtain ⟨s', t', b, hrun, h', heff⟩ := run_pTreeBstRemove h.holds hd hfuel
      exact ⟨s', t', b, hrun, h', trivial, heff⟩
    | rb =>
      obtain ⟨n, hbal⟩ := h.balanced
      obtain ⟨s', t', b, n', hrun, h', hbal', heff⟩ := run_pTreeRbRemove h.holds hbal hd hfuel
      exact ⟨s', t', b, hrun, h', ⟨n', hbal'⟩, heff⟩
    | avl => exact run_pTreeAvlRemove h.holds h.balanced hd hfuel
  obtain ⟨s', t', b, hrun, h', hbal, heff⟩ := hspec
  obtain ⟨hps, rfl, hw⟩ := heff.eq h.pairs_eq
  exact ⟨s', t', hrun, ⟨h', hbal, hps⟩, hw⟩

/-- **The search for a key** finds its node, if there is one. -/
theorem run_findNode (h : HoldsMap type s t m) (key : ppointer) (hfuel : m.size < fuel) :
    ((findNode fuel c.cmp key s.root).run s = some (NULL, s) ∧ m.bindings key = [] ∧
      ¬ InTwoChildNode c.cmp key t) ∨
    ∃ a n, (findNode fuel c.cmp key s.root).run s = some (a, s) ∧ a ≠ NULL ∧ s.get a = some n ∧
      m.bindings key = [(n.key, n.value)] ∧
      (InTwoChildNode c.cmp key t ↔ n.left ≠ NULL ∧ n.right ≠ NULL) := by
  rw [← h.size_eq] at hfuel
  have hroot : s.root = t.ptr := h.holds.root_eq
  have hrun := Plibsys.run_findNode c.cmp key h.holds hfuel
  rcases hs : t.search (keyCmp c.cmp key) [] with ⟨k, u⟩
  rw [hs, ← hroot] at hrun
  have hplug := plug_of_search hs
  have hku : Holds type.layout s k u := Zip.refocus h.holds (by simpa [Ctx.plug] using hplug)
  have hplace := keyPlace_search hs (h.directed key)
  cases u with
  | nil =>
    have hsplit := hplace.splitAt (m := m) [] (by simp)
      (by rw [← h.pairs_eq, ← hplug, pairs_plug]; simp)
    exact .inl ⟨hrun, hsplit.bindings_eq, by simp [InTwoChildNode, hs]⟩
  | node a l x r =>
    have h0 : c.cmp key x.pair.1 = 0 := AddrTree.search_hit (g := keyCmp c.cmp key) (congrArg Prod.snd hs)
    have hd := h.directed key
    rw [← hplug, pairs_plug_node] at hd
    have hsplit := (keyPlace_of_eq hd h0).splitAt (m := m) [x.pair] (by simpa using h0)
      (by rw [← h.pairs_eq, ← hplug, pairs_plug_node]; simp)
    refine .inr ⟨a, _, hrun, hku.ne_null (by simp), hku.get, ?_, ?_⟩
    · rw [hsplit.bindings_eq, NodeLayout.key_cell, NodeLayout.value_cell]
      rfl
    · have hl := hku.left.ptr_eq_null
      have hr := hku.right.ptr_eq_null
      simp [InTwoChildNode, hs, hl, hr]

end HoldsMap

end

end Plibsys
