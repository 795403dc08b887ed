/-
  Runs of a system that is driven by calls, and their simulation by a specification.

  A call leads from a state to an output and a next state, or fails.  `simulates` lifts a
  simulation of single calls to runs: a run within the budget does not fail, and its
  outputs are those of a run of the specification.
-/
import Mathlib.Data.Nat.Notation

namespace Runs

variable {S A I O : Type}

/-- Perform the calls in turn. -/
def run (step : I → S → Option (O × S)) : List I → S → Option (List O × S)
  | [], s => some ([], s)
  | i :: is, s =>
    match step i s with
    | none => none
    | some (o, s') => (run step is s').map fun r => (o :: r.1, r.2)

/-- Every call of the run is made in a state in which `ok` allows it. -/
def Along (step : I → S → Option (O × S)) (ok : S → I → Prop) : List I → S → Prop
  | [], _ => True
  | i :: is, s => ok s i ∧
    match step i s with
    | none => True
    | some (_, s') => Along step ok is s'

/-- The rest of the run is allowed from any state. -/
theorem Along.cons {step : I → S → Option (O × S)} {ok : S → I → Prop} {i : I} {is : List I} {s : S} (hi : ok s i)
    (his : ∀ s', Along step ok is s') : Along step ok (i :: is) s := by
  refine ⟨hi, ?_⟩
  cases step i s with
  | none => trivial
  | some r => exact his r.2

theorem Along.of_forall (h : ∀ s i, ok s i) : ∀ is s, Along step ok is s
  | [], _ => trivial
  | i :: is, s => .cons (h s i) (Along.of_forall h is)

instance Along.decidable (step : I → S → Option (O × S)) (ok : S → I → Prop) [∀ s i, Decidable (ok s i)] :
    ∀ is s, Decidable (Along step ok is s)
  | [], _ => isTrue trivial
  | i :: is, s =>
    match h : step i s with
    | none => decidable_of_iff (ok s i) (by simp [Along, h])
    | some (_, s') =>
      have := Along.decidable step ok is s'
      decidable_of_iff (ok s i ∧ Along step ok is s') (by simp [Along, h])

/-- A run of a specification. -/
inductive SpecRun (spec : A → I → O → A → Prop) : A → List I → List O → A → Prop
  | nil {a} : SpecRun spec a [] [] a
  | cons {a i o a' is os a''} : spec a i o a' → SpecRun spec a' is os a'' →
      SpecRun spec a (i :: is) (o :: os) a''

variable {step : I → S → Option (O × S)} {ok : S → I → Prop} {spec : A → I → O → A → Prop}
  {is js : List I} {os ps : List O} {s s' s'' : S} {a a' : A} {o : O} {i : I}

theorem run_cons (h : step i s = some (o, s')) :
    run step (i :: is) s = (run step is s').map fun r => (o :: r.1, r.2) := by
  simp [run, h]

theorem run_append (h : run step is s = some (os, s')) (h' : run step js s' = some (ps, s'')) :
    run step (is ++ js) s = some (os ++ ps, s'') := by
  induction is generalizing s os with
  | nil =>
    cases h
    exact h'
  | cons i is ih =>
    cases hi : step i s with
    | none => simp [run, hi] at h
    | some r =>
      rw [run_cons hi] at h
      obtain ⟨q, hq, he⟩ := Option.map_eq_some_iff.1 h
      cases he
      rw [List.cons_append, run_cons hi, ih hq]
      rfl

/-- What is allowed along a run is at most what an invariant makes of it. -/
theorem Along.imp {ok' : S → I → Prop} {R : S → Prop} (hok : Along step ok is s) (h : R s)
    (hstep : ∀ i ∈ is, ∀ s, R s → ok s i → ok' s i ∧ ∀ o s', step i s = some (o, s') → R s') :
    Along step ok' is s := by
  induction is generalizing s with
  | nil => trivial
  | cons i is ih =>
    obtain ⟨hi, his⟩ := hok
    obtain ⟨hi', hnext⟩ := hstep i List.mem_cons_self s h hi
    refine ⟨hi', ?_⟩
    cases hs : step i s with
    | none => trivial
    | some r =>
      rw [hs] at his
      exact ih his (hnext _ _ hs) fun j hj => hstep j (List.mem_cons_of_mem _ hj)

/-- **Simulation.**  `R n s a` relates the states when `n` more calls may follow. -/
theorem simulates {R : ℕ → S → A → Prop} (hok : Along step ok is s) (h : R is.length s a)
    (hstep : ∀ n s a i, R (n + 1) s a → ok s i →
      ∃ o s' a', step i s = some (o, s') ∧ spec a i o a' ∧ R n s' a') :
    ∃ os s' a', run step is s = some (os, s') ∧ SpecRun spec a is os a' ∧ R 0 s' a' := by
  induction is generalizing s a with
  | nil => exact ⟨[], s, a, rfl, .nil, h⟩
  | cons i is ih =>
    obtain ⟨hi, his⟩ := hok
    obtain ⟨o, s', a', hs', hspec, hR⟩ := hstep _ _ _ _ h hi
    rw [hs'] at his
    obtain ⟨os, s'', a'', hrun, hrest, hR'⟩ := ih his hR
    exact ⟨o :: os, s'', a'', by rw [run_cons hs', hrun]; rfl, .cons hspec hrest, hR'⟩

/-- **Invariants of runs**: simulation without a specification. -/
theorem invariant {R : ℕ → S → Prop} (hok : Along step ok is s) (h : R is.length s)
    (hstep : ∀ n s i, R (n + 1) s → ok s i → ∃ o s', step i s = some (o, s') ∧ R n s') :
    ∃ os s', run step is s = some (os, s') ∧ R 0 s' := by
  let spec : Unit → I → O → Unit → Prop := fun _ _ _ _ => True
  have hspec : ∀ n s a i, R (n + 1) s → ok s i →
      ∃ o s' a', step i s = some (o, s') ∧ spec a i o a' ∧ R n s' := fun n s _ i hR hi => by
    obtain ⟨o, s', hs', hR'⟩ := hstep n s i hR hi
    exact ⟨o, s', (), hs', trivial, hR'⟩
  obtain ⟨os, s', -, hrun, -, hR⟩ := simulates (a := ()) (R := fun n s _ => R n s) hok h hspec
  exact ⟨os, s', hrun, hR⟩

end Runs
