/-
  Lists linked by pointers in a store.

  `Chain c p l q` says that the store `c` holds the nodes `l` in turn, from the address `p` on, and that the
  last of them is linked to `q`.  The end of a list is linked to address 0, which holds no node.

  * `Chain.nodup`: a list that ends has no node twice.
  * `Replaces`: which changes of the store turn the nodes of one list into those of another; a list that it
    does not meet stays as it is (`Replaces.other`).
-/
import Mathlib.Data.List.Nodup

namespace Chains

variable {α : Type}

structure Cell (α : Type) where
  data : α
  next : ℕ
  deriving DecidableEq, Repr

/-- Addresses with what they hold. -/
abbrev Nodes (α : Type) := List (ℕ × α)

/-- The addresses of the nodes. -/
def addrs (l : Nodes α) : List ℕ := l.map Prod.fst

@[simp] theorem addrs_nil : addrs ([] : Nodes α) = [] := rfl

@[simp] theorem addrs_cons {a : ℕ} {x : α} {l : Nodes α} : addrs ((a, x) :: l) = a :: addrs l := rfl

@[simp] theorem addrs_append {l l' : Nodes α} : addrs (l ++ l') = addrs l ++ addrs l' := List.map_append

@[simp] theorem addrs_reverse {l : Nodes α} : addrs l.reverse = (addrs l).reverse := List.map_reverse

/-- The nodes from `p` on, up to the link to `q`. -/
def Chain (c : ℕ → Option (Cell α)) : ℕ → Nodes α → ℕ → Prop
  | p, [], q => p = q
  | p, (a, x) :: l, q => p = a ∧ a ≠ 0 ∧ ∃ n, c a = some ⟨x, n⟩ ∧ Chain c n l q

variable {c c' : ℕ → Option (Cell α)} {p q r a : ℕ} {x : α} {l l' : Nodes α}

theorem Chain.cell (h : Chain c p l q) (ha : a ∈ addrs l) : (c a).isSome ∧ a ≠ 0 := by
  induction l generalizing p with
  | nil => cases ha
  | cons e l ih =>
    obtain ⟨b, x⟩ := e
    obtain ⟨-, hb, n, hcell, hrest⟩ := h
    rcases List.mem_cons.1 ha with rfl | ha
    · exact ⟨by rw [hcell]; rfl, hb⟩
    · exact ih hrest ha

theorem chain_append : Chain c p (l ++ l') q ↔ ∃ r, Chain c p l r ∧ Chain c r l' q := by
  induction l generalizing p with
  | nil =>
    constructor
    · intro h
      exact ⟨p, rfl, h⟩
    · rintro ⟨_, rfl, h⟩
      exact h
  | cons e l ih =>
    obtain ⟨a, x⟩ := e
    constructor
    · rintro ⟨rfl, ha, n, hcell, hrest⟩
      obtain ⟨r, h₁, h₂⟩ := ih.1 hrest
      exact ⟨r, ⟨rfl, ha, n, hcell, h₁⟩, h₂⟩
    · rintro ⟨r, ⟨rfl, ha, n, hcell, h₁⟩, h₂⟩
      exact ⟨rfl, ha, n, hcell, ih.2 ⟨r, h₁, h₂⟩⟩

/-- A list depends on its own nodes only. -/
theorem Chain.congr (h : Chain c p l q) (hc : ∀ a ∈ addrs l, c' a = c a) : Chain c' p l q := by
  induction l generalizing p with
  | nil => exact h
  | cons e l ih =>
    obtain ⟨b, x⟩ := e
    obtain ⟨rfl, hb, n, hcell, hrest⟩ := h
    refine ⟨rfl, hb, n, (hc p List.mem_cons_self).trans hcell, ih hrest fun a ha => ?_⟩
    exact hc a (List.mem_cons_of_mem _ ha)

/-- There is one list from an address to the end. -/
theorem Chain.unique (h : Chain c p l 0) (h' : Chain c p l' 0) : l = l' := by
  induction l generalizing p l' with
  | nil =>
    cases l' with
    | nil => rfl
    | cons e l' =>
      obtain ⟨rfl, hne, -⟩ := h'
      exact absurd h hne
  | cons e l ih =>
    obtain ⟨a, x⟩ := e
    obtain ⟨rfl, hne, n, hcell, hrest⟩ := h
    cases l' with
    | nil => exact absurd h' hne
    | cons e' l' =>
      obtain ⟨a', x'⟩ := e'
      obtain ⟨rfl, -, n', hcell', hrest'⟩ := h'
      rw [hcell] at hcell'
      cases hcell'
      rw [ih hrest hrest']

/-- **A list that ends does not come back.** -/
theorem Chain.nodup (h : Chain c p l 0) : (addrs l).Nodup := by
  induction l generalizing p with
  | nil => exact List.nodup_nil
  | cons e l ih =>
    obtain ⟨a, x⟩ := e
    have hwhole := h
    obtain ⟨rfl, -, n, -, hrest⟩ := h
    refine List.nodup_cons.2 ⟨fun hmem => ?_, ih hrest⟩
    -- from its second occurrence on, the list would be longer than itself
    obtain ⟨⟨b, y⟩, hb, rfl⟩ := List.mem_map.1 hmem
    obtain ⟨l₁, l₂, rfl⟩ := List.append_of_mem hb
    obtain ⟨r, -, hfrom⟩ := chain_append.1 hrest
    obtain ⟨rfl, -⟩ := id hfrom
    have heq := congrArg List.length (hwhole.unique hfrom)
    simp only [List.length_cons, List.length_append] at heq
    omega

/-- Where the nodes of a list end. -/
theorem Chain.ne_zero (h : Chain c p ((a, x) :: l) q) : p ≠ 0 := by
  obtain ⟨rfl, hne, -⟩ := h
  exact hne

theorem Chain.eq_nil (h : Chain c 0 l 0) : l = [] := h.unique (show Chain c 0 [] 0 from rfl)

/-! ## Changes -/

/-- The nodes `l` have been turned into `l'`: what is no longer used is free, what is new was free, and
    nothing else has changed. -/
structure Replaces (c : ℕ → Option (Cell α)) (l : Nodes α) (c' : ℕ → Option (Cell α)) (l' : Nodes α) : Prop where
  frame : ∀ a, a ∉ addrs l → a ∉ addrs l' → c' a = c a
  freed : ∀ a ∈ addrs l, a ∉ addrs l' → c' a = none
  fresh : ∀ a ∈ addrs l', a ∉ addrs l → c a = none

theorem Replaces.refl (c : ℕ → Option (Cell α)) (l : Nodes α) : Replaces c l c l :=
  ⟨fun _ _ _ => rfl, fun _ h h' => absurd h h', fun _ h h' => absurd h h'⟩

/-- Two changes, the second of which brings in nothing. -/
theorem Replaces.trans {c'' : ℕ → Option (Cell α)} (h : Replaces c l c' l') (h' : Replaces c' l' c'' [])
    (hsub : ∀ a ∈ addrs l', a ∈ addrs l) : Replaces c l c'' [] := by
  refine ⟨?_, ?_, ?_⟩
  · intro a ha hnil
    have ha' : a ∉ addrs l' := fun hmem => ha (hsub a hmem)
    exact (h'.frame a ha' hnil).trans (h.frame a ha ha')
  · intro a ha hnil
    by_cases ha' : a ∈ addrs l'
    · exact h'.freed a ha' hnil
    · exact (h'.frame a ha' hnil).trans (h.freed a ha ha')
  · intro a ha
    cases ha

/-- Another list stays as it is. -/
theorem Replaces.other {k : Nodes α} (h : Replaces c l c' l') (hk : Chain c p k q)
    (hdisj : ∀ a ∈ addrs k, a ∉ addrs l) : Chain c' p k q ∧ ∀ a ∈ addrs k, a ∉ addrs l' := by
  have hnew : ∀ a ∈ addrs k, a ∉ addrs l' := by
    intro a ha hmem
    have hsome := (hk.cell ha).1
    rw [h.fresh a hmem (hdisj a ha)] at hsome
    cases hsome
  exact ⟨hk.congr fun a ha => h.frame a (hdisj a ha) (hnew a ha), hnew⟩

section
variable {b : ℕ} {y : α} {l₁ l₂ : Nodes α}

/-- A new node in front. -/
theorem Chain.link_front (h : Chain c p l 0) (hb : b ≠ 0) (hfree : c b = none) (hnew : c' b = some ⟨y, p⟩)
    (hother : ∀ e, e ≠ b → c' e = c e) : Chain c' b ((b, y) :: l) 0 ∧ Replaces c l c' ((b, y) :: l) := by
  have hmem : b ∉ addrs l := by
    intro hmem
    have hsome := (h.cell hmem).1
    rw [hfree] at hsome
    cases hsome
  refine ⟨⟨rfl, hb, p, hnew, h.congr fun e he => hother e fun heq => hmem (heq ▸ he)⟩, ?_, ?_, ?_⟩
  · intro e _ he
    exact hother e fun heq => he (heq ▸ List.mem_cons_self)
  · intro e he hnot
    exact absurd (List.mem_cons_of_mem _ he) hnot
  · intro e he hnot
    rcases List.mem_cons.1 he with rfl | he
    · exact hfree
    · exact absurd he hnot

/-- A new node behind the last one. -/
theorem Chain.link_last (h : Chain c p (l ++ [(a, x)]) 0) (hb : b ≠ 0) (hfree : c b = none)
    (hlast : c' a = some ⟨x, b⟩) (hnew : c' b = some ⟨y, 0⟩) (hother : ∀ e, e ≠ a → e ≠ b → c' e = c e) :
    Chain c' p (l ++ [(a, x)] ++ [(b, y)]) 0 ∧ Replaces c (l ++ [(a, x)]) c' (l ++ [(a, x)] ++ [(b, y)]) := by
  have hmem : b ∉ addrs (l ++ [(a, x)]) := by
    intro hmem
    have hsome := (h.cell hmem).1
    rw [hfree] at hsome
    cases hsome
  have hnodup := h.nodup
  rw [addrs_append] at hmem hnodup
  obtain ⟨r, hfront, rfl, ha, -⟩ := chain_append.1 h
  refine ⟨?_, ?_, ?_, ?_⟩
  · refine chain_append.2 ⟨b, chain_append.2 ⟨r, ?_, rfl, ha, b, hlast, rfl⟩, rfl, hb, 0, hnew, rfl⟩
    refine hfront.congr fun e he => hother e ?_ ?_
    · rintro rfl
      exact (List.nodup_append.1 hnodup).2.2 e he e List.mem_cons_self rfl
    · rintro rfl
      exact hmem (List.mem_append_left _ he)
  · intro e _ he
    rw [addrs_append, addrs_append] at he
    refine hother e ?_ ?_
    · rintro rfl
      exact he (List.mem_append_left _ (List.mem_append_right _ List.mem_cons_self))
    · rintro rfl
      exact he (List.mem_append_right _ List.mem_cons_self)
  · intro e he hnot
    rw [@addrs_append _ _ [(b, y)]] at hnot
    exact absurd (List.mem_append_left _ he) hnot
  · intro e he hnot
    rw [@addrs_append _ _ [(b, y)]] at he
    rcases List.mem_append.1 he with he | he
    · exact absurd he hnot
    · obtain rfl := List.mem_singleton.1 he
      exact hfree

/-- The first node is taken out and freed. -/
theorem Chain.unlink_front (h : Chain c p ((a, x) :: l) 0) (hgone : c' a = none)
    (hother : ∀ e, e ≠ a → c' e = c e) :
    ∃ n, c a = some ⟨x, n⟩ ∧ Chain c' n l 0 ∧ Replaces c ((a, x) :: l) c' l := by
  have hnodup := h.nodup
  obtain ⟨rfl, ha, n, hcell, hrest⟩ := h
  obtain ⟨hmem, -⟩ := List.nodup_cons.1 hnodup
  refine ⟨n, hcell, hrest.congr fun e he => hother e fun heq => hmem (heq ▸ he), ?_, ?_, ?_⟩
  · intro e he _
    exact hother e fun heq => he (heq ▸ List.mem_cons_self)
  · intro e he hnot
    rcases List.mem_cons.1 he with rfl | he
    · exact hgone
    · exact absurd he hnot
  · intro e he hnot
    exact absurd (List.mem_cons_of_mem _ he) hnot

/-- A node behind another one is taken out and freed. -/
theorem Chain.unlink (h : Chain c p (l₁ ++ (b, y) :: (a, x) :: l₂) 0) (n : ℕ) (hcell : c a = some ⟨x, n⟩)
    (hlink : c' b = some ⟨y, n⟩) (hgone : c' a = none) (hother : ∀ e, e ≠ a → e ≠ b → c' e = c e) :
    Chain c' p (l₁ ++ (b, y) :: l₂) 0 ∧ Replaces c (l₁ ++ (b, y) :: (a, x) :: l₂) c' (l₁ ++ (b, y) :: l₂) := by
  have hnodup := h.nodup
  simp only [addrs_append, addrs_cons, List.nodup_append, List.nodup_cons, List.mem_cons, not_or] at hnodup
  obtain ⟨-, ⟨⟨-, hb⟩, ha, -⟩, hdisj⟩ := hnodup
  obtain ⟨r, hfront, rfl, hne, n', -, rfl, -, n'', hcell', hrest⟩ := chain_append.1 h
  rw [hcell] at hcell'
  cases hcell'
  refine ⟨chain_append.2 ⟨r, ?_, rfl, hne, n, hlink, ?_⟩, ?_, ?_, ?_⟩
  · refine hfront.congr fun e he => hother e ?_ ?_
    · exact hdisj e he n' (.inr (.inl rfl))
    · exact hdisj e he r (.inl rfl)
  · refine hrest.congr fun e he => hother e ?_ ?_
    · rintro rfl
      exact ha he
    · rintro rfl
      exact hb he
  · intro e he _
    simp only [addrs_append, addrs_cons, List.mem_append, List.mem_cons, not_or] at he
    exact hother e he.2.2.1 he.2.1
  · intro e he hnot
    simp only [addrs_append, addrs_cons, List.mem_append, List.mem_cons, not_or] at he hnot
    rcases he with he | rfl | rfl | he
    · exact absurd he hnot.1
    · exact absurd rfl hnot.2.1
    · exact hgone
    · exact absurd he hnot.2.2
  · intro e he hnot
    simp only [addrs_append, addrs_cons, List.mem_append, List.mem_cons, not_or] at he hnot
    rcases he with he | rfl | he
    · exact absurd he hnot.1
    · exact absurd rfl hnot.2.1
    · exact absurd he hnot.2.2.2

end

end Chains
