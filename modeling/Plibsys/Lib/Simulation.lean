/-
  Systems of threads that look the same from outside.

  Some of the steps show an event.  When each step of one system is matched by steps of another
  one with the same events, every history of the first system is a history of the second.
-/
import Plibsys.Lib.Interleaving

namespace Interleaving

variable {ι A S L A' S' L' E : Type}

/-- The events of a schedule, each with its thread. -/
def history (event : A → Option E) (xs : List (ι × A)) : List (ι × E) :=
  xs.filterMap fun x => (event x.2).map fun e => (x.1, e)

variable {event : A → Option E} {event' : A' → Option E}

@[simp] theorem history_nil : history (ι := ι) event [] = [] := rfl

theorem history_append (xs ys : List (ι × A)) :
    history event (xs ++ ys) = history event xs ++ history event ys := List.filterMap_append ..

theorem history_cons (x : ι × A) (xs : List (ι × A)) :
    history event (x :: xs) = history event [x] ++ history event xs := history_append [x] xs

variable [DecidableEq ι] (step : ι → A → S → L → Option (S × L)) (step' : ι → A' → S' → L' → Option (S' × L'))

/-- The second system matches every step of the first one. -/
def Simulates (event : A → Option E) (event' : A' → Option E) (R : Config ι S L → Config ι S' L' → Prop) : Prop :=
  ∀ c d i a s l, R c d → step i a c.shared (c.loc i) = some (s, l) →
    ∃ ys d', run step' d ys = some d' ∧ history event' ys = history event [(i, a)] ∧ R (c.set i s l) d'

variable {step step'} {R : Config ι S L → Config ι S' L' → Prop} {c c' : Config ι S L} {d : Config ι S' L'}
  {xs : List (ι × A)}

/-- **Simulation**: every run has a matching one, with the same history. -/
theorem Simulates.run (hsim : Simulates step step' event event' R) (h : R c d) (hrun : run step c xs = some c') :
    ∃ ys d', run step' d ys = some d' ∧ history event' ys = history event xs ∧ R c' d' := by
  induction xs generalizing c d with
  | nil =>
    cases hrun
    exact ⟨[], d, rfl, rfl, h⟩
  | cons x xs ih =>
    rw [run_cons] at hrun
    obtain ⟨c₁, hnext, hrest⟩ := Option.bind_eq_some_iff.1 hrun
    obtain ⟨⟨s, l⟩, hs, rfl⟩ := Option.map_eq_some_iff.1 hnext
    obtain ⟨ys, d₁, hys, hhist, hR⟩ := hsim c d x.1 x.2 s l h hs
    obtain ⟨zs, d', hzs, hhist', hR'⟩ := ih hR hrest
    refine ⟨ys ++ zs, d', run_trans hys hzs, ?_, hR'⟩
    rw [history_append, hhist, hhist', ← history_cons]

/-- **Invariants of a run and of its history.** -/
theorem run_history_invariant {I : List (ι × E) → Config ι S L → Prop}
    (hstep : ∀ h c i a s l, I h c → step i a c.shared (c.loc i) = some (s, l) →
      I (h ++ history event [(i, a)]) (c.set i s l))
    {h : List (ι × E)} (hI : I h c) (hrun : run step c xs = some c') : I (h ++ history event xs) c' := by
  induction xs generalizing c h with
  | nil =>
    cases hrun
    rwa [history_nil, List.append_nil]
  | cons x xs ih =>
    rw [run_cons] at hrun
    obtain ⟨c₁, hnext, hrest⟩ := Option.bind_eq_some_iff.1 hrun
    obtain ⟨⟨s, l⟩, hs, rfl⟩ := Option.map_eq_some_iff.1 hnext
    rw [history_cons, ← List.append_assoc]
    exact ih (hstep h c x.1 x.2 s l hI hs) hrest

end Interleaving
