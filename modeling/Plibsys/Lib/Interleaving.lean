/-
  Threads that take turns on a shared state, in any order.

  Each atomic step of a thread is a function of the shared state and of the place of the thread;
  it may depend on a choice from outside, and there is none while the thread is blocked.  What
  every step keeps holds in every state that a run reaches.
-/
import Mathlib.Data.Fintype.Card
import Mathlib.Logic.Function.Basic

namespace Interleaving

variable {ι A S L : Type}

/-- The shared state and the place of each thread. -/
structure Config (ι S L : Type) where
  shared : S
  loc : ι → L

section
variable [DecidableEq ι]

/-- The thread `i` has made a step. -/
def Config.set (c : Config ι S L) (i : ι) (s : S) (l : L) : Config ι S L := ⟨s, Function.update c.loc i l⟩

variable (step : ι → A → S → L → Option (S × L))

/-- The step of one thread, with its choice. -/
def next (c : Config ι S L) (x : ι × A) : Option (Config ι S L) :=
  (step x.1 x.2 c.shared (c.loc x.1)).map fun r => c.set x.1 r.1 r.2

/-- The steps of a schedule in turn. -/
def run (c : Config ι S L) (xs : List (ι × A)) : Option (Config ι S L) := xs.foldlM (next step) c

/-- Some schedule leads from one configuration to another. -/
def Reaches (c c' : Config ι S L) : Prop := ∃ xs, run step c xs = some c'

/-- Every step of the run is taken in a configuration in which `ok` allows it. -/
def Along (ok : Config ι S L → ι × A → Prop) : Config ι S L → List (ι × A) → Prop
  | _, [] => True
  | c, x :: xs => ok c x ∧ ∀ c' ∈ next step c x, Along ok c' xs

instance decidableAlong {ok : Config ι S L → ι × A → Prop} [∀ c x, Decidable (ok c x)] :
    ∀ c xs, Decidable (Along step ok c xs)
  | _, [] => .isTrue trivial
  | c, x :: xs =>
    have : ∀ c', Decidable (Along step ok c' xs) := fun c' => decidableAlong c' xs
    inferInstanceAs (Decidable (ok c x ∧ ∀ c' ∈ next step c x, Along step ok c' xs))

variable {step} {c c' c'' : Config ι S L} {x : ι × A} {xs ys : List (ι × A)} {i j : ι} {s : S} {l : L}

@[simp] theorem shared_set : (c.set i s l).shared = s := rfl

@[simp] theorem loc_set_self : (c.set i s l).loc i = l := Function.update_self ..

theorem loc_set_of_ne (h : j ≠ i) : (c.set i s l).loc j = c.loc j := Function.update_of_ne h ..

theorem set_same : c.set i c.shared (c.loc i) = c := by
  rw [Config.set, Function.update_eq_self]

theorem set_set {s' : S} {l' : L} : (c.set i s l).set i s' l' = c.set i s' l' := by
  rw [Config.set, Config.set, Config.set, Function.update_idem]

/-- What a function says of the places changes for one thread only. -/
theorem map_loc_set {M : Type} (f : L → M) (c : Config ι S L) (i : ι) (s : S) (l : L) :
    (fun j => f ((c.set i s l).loc j)) = Function.update (fun j => f (c.loc j)) i (f l) := by
  funext j
  by_cases hj : j = i
  · subst hj
    rw [loc_set_self, Function.update_self]
  · rw [loc_set_of_ne hj, Function.update_of_ne hj]

theorem forall_set {P : ι → L → Prop} (hi : P i l) (h : ∀ j, j ≠ i → P j (c.loc j)) (j : ι) :
    P j ((c.set i s l).loc j) := by
  by_cases hj : j = i
  · subst hj
    rwa [loc_set_self]
  · rw [loc_set_of_ne hj]
    exact h j hj

theorem run_cons : run step c (x :: xs) = (next step c x).bind fun c' => run step c' xs := List.foldlM_cons ..

theorem run_append : run step c (xs ++ ys) = (run step c xs).bind fun c' => run step c' ys := List.foldlM_append ..

theorem run_trans (h : run step c xs = some c') (h' : run step c' ys = some c'') :
    run step c (xs ++ ys) = some c'' := by
  rw [run_append, h]
  exact h'

theorem run_of_step {a : A} (h : step i a c.shared (c.loc i) = some (s, l)) :
    run step c [(i, a)] = some (c.set i s l) := by
  rw [run_cons, next, h]
  rfl

/-- A thread makes one more step. -/
theorem run_set {a : A} {s' : S} {l' : L} (h : step i a s l = some (s', l')) :
    run step (c.set i s l) [(i, a)] = some (c.set i s' l') := by
  have hstep : step i a (c.set i s l).shared ((c.set i s l).loc i) = some (s', l') := by rwa [loc_set_self]
  have hrun := run_of_step hstep
  rwa [set_set] at hrun

theorem Along.append {ok : Config ι S L → ι × A → Prop} (h : Along step ok c xs) (hrun : run step c xs = some c')
    (h' : Along step ok c' ys) : Along step ok c (xs ++ ys) := by
  induction xs generalizing c with
  | nil =>
    cases hrun
    exact h'
  | cons x xs ih =>
    obtain ⟨hx, hxs⟩ := h
    refine ⟨hx, fun c₁ hnext => ih (hxs c₁ hnext) ?_⟩
    rw [run_cons, hnext] at hrun
    exact hrun

theorem Reaches.refl (c : Config ι S L) : Reaches step c c := ⟨[], rfl⟩

theorem Reaches.of_step {a : A} (h : step i a c.shared (c.loc i) = some (s, l)) : Reaches step c (c.set i s l) :=
  ⟨_, run_of_step h⟩

theorem Reaches.trans (h : Reaches step c c') (h' : Reaches step c' c'') : Reaches step c c'' := by
  obtain ⟨xs, hxs⟩ := h
  obtain ⟨ys, hys⟩ := h'
  exact ⟨xs ++ ys, run_trans hxs hys⟩

/-- **Invariants, under a condition on the steps.** -/
theorem run_invariant_along {I : Config ι S L → Prop} {ok : Config ι S L → ι × A → Prop}
    (hstep : ∀ c i a s l, I c → ok c (i, a) → step i a c.shared (c.loc i) = some (s, l) → I (c.set i s l))
    (h : I c) (hok : Along step ok c xs) (hrun : run step c xs = some c') : I c' := by
  induction xs generalizing c with
  | nil =>
    cases hrun
    exact h
  | cons x xs ih =>
    obtain ⟨hx, hxs⟩ := hok
    rw [run_cons] at hrun
    obtain ⟨c₁, hnext, hrest⟩ := Option.bind_eq_some_iff.1 hrun
    obtain ⟨⟨s, l⟩, hs, rfl⟩ := Option.map_eq_some_iff.1 hnext
    exact ih (hstep c x.1 x.2 s l h hx hs) (hxs _ hnext) hrest

theorem Along.of_forall {ok : Config ι S L → ι × A → Prop} (h : ∀ c x, ok c x) (c : Config ι S L)
    (xs : List (ι × A)) : Along step ok c xs := by
  induction xs generalizing c with
  | nil => trivial
  | cons x xs ih => exact ⟨h c x, fun c' _ => ih c'⟩

theorem Along.of_mem {ok : ι × A → Prop} (h : ∀ x ∈ xs, ok x) (c : Config ι S L) :
    Along step (fun _ x => ok x) c xs := by
  induction xs generalizing c with
  | nil => trivial
  | cons x xs ih =>
    exact ⟨h x (List.mem_cons_self ..), fun c' _ => ih (fun y hy => h y (List.mem_cons_of_mem x hy)) c'⟩

variable (step) in
/-- Every state that the run reaches on its way has a property. -/
def Throughout (P : Config ι S L → Prop) (c : Config ι S L) (xs : List (ι × A)) : Prop :=
  ∀ ys c', ys <+: xs → run step c ys = some c' → P c'

theorem throughout_nil {P : Config ι S L → Prop} : Throughout step P c [] ↔ P c := by
  constructor
  · intro h
    exact h [] c List.prefix_rfl rfl
  · intro h ys c' hys hrun
    rw [List.prefix_nil.1 hys] at hrun
    cases hrun
    exact h

theorem throughout_concat {P : Config ι S L → Prop} (hrun : run step c (xs ++ [x]) = some c') :
    Throughout step P c (xs ++ [x]) ↔ Throughout step P c xs ∧ P c' := by
  constructor
  · intro h
    exact ⟨fun ys c₁ hys => h ys c₁ (hys.trans (List.prefix_append ..)), h _ c' List.prefix_rfl hrun⟩
  · rintro ⟨h, hlast⟩ ys c₁ hys hys'
    rcases List.prefix_concat_iff.1 hys with rfl | hys
    · rw [hrun] at hys'
      cases hys'
      exact hlast
    · exact h ys c₁ hys hys'

/-- **The good states and the bad ones.**  As long as the states are in bounds they are good; after that they
    are bad for ever. -/
theorem run_good_or_bad {Good Bad P : Config ι S L → Prop} {ok : ι × A → Prop}
    (hgood : ∀ c i a s l, Good c → ok (i, a) → step i a c.shared (c.loc i) = some (s, l) →
      (P (c.set i s l) → Good (c.set i s l)) ∧ (¬ P (c.set i s l) → Bad (c.set i s l)))
    (hbad : ∀ c i a s l, Bad c → ok (i, a) → step i a c.shared (c.loc i) = some (s, l) → Bad (c.set i s l))
    (h : Good c) (hP : P c) (hok : ∀ x ∈ xs, ok x) (hrun : run step c xs = some c') :
    (Throughout step P c xs → Good c') ∧ (¬ Throughout step P c xs → Bad c') := by
  induction xs using List.reverseRecOn generalizing c' with
  | nil =>
    cases hrun
    exact ⟨fun _ => h, fun hnot => absurd (throughout_nil.2 hP) hnot⟩
  | append_singleton xs x ih =>
    have hlast := throughout_concat (P := P) hrun
    rw [run_append] at hrun
    obtain ⟨c₁, hxs, hx⟩ := Option.bind_eq_some_iff.1 hrun
    obtain ⟨ihgood, ihbad⟩ := ih (fun y hy => hok y (List.mem_append_left _ hy)) hxs
    have hokx := hok x (List.mem_append_right _ (List.mem_singleton_self x))
    rw [run_cons] at hx
    obtain ⟨c₂, hnext, hnil⟩ := Option.bind_eq_some_iff.1 hx
    cases hnil
    obtain ⟨⟨s, l⟩, hs, rfl⟩ := Option.map_eq_some_iff.1 hnext
    rw [hlast]
    by_cases hwithin : Throughout step P c xs
    · obtain ⟨hin, hout⟩ := hgood c₁ x.1 x.2 s l (ihgood hwithin) hokx hs
      exact ⟨fun hboth => hin hboth.2, fun hnot => hout fun hlast => hnot ⟨hwithin, hlast⟩⟩
    · exact ⟨fun hboth => absurd hboth.1 hwithin, fun _ => hbad c₁ x.1 x.2 s l (ihbad hwithin) hokx hs⟩

/-- **Invariants**: what every step keeps holds after every run. -/
theorem Reaches.invariant {I : Config ι S L → Prop}
    (hstep : ∀ c i a s l, I c → step i a c.shared (c.loc i) = some (s, l) → I (c.set i s l))
    (h : I c) (hreach : Reaches step c c') : I c' := by
  obtain ⟨xs, hxs⟩ := hreach
  have halong : Along step (fun _ _ => True) c xs := .of_forall (fun _ _ => trivial) c xs
  exact run_invariant_along (fun c i a s l hc _ => hstep c i a s l hc) h halong hxs

end

end Interleaving
