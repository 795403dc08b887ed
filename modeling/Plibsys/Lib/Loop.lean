/-
  Loops of imperative code, with a bound on the number of iterations.

  A program is a state transformer that may fail (`StateT σ Option`).  The body
  of a loop says whether to go on (`continue`) or to leave (`break`); `loop`
  runs it at most `n` times.  `Iters` counts completed iterations, so that a
  loop is reasoned about without naming the bound: `loop_eq` gives the result
  for every bound above the number of iterations made.
-/
import Mathlib.Data.Nat.Notation

namespace Looping

variable {σ β γ : Type}

/-- What one iteration decides. -/
inductive Iter (β γ : Type) where
  | next (b : β)
  | done (c : γ)

/-- Run `body` from `b`, at most `n` times. -/
def loop (body : β → StateT σ Option (Iter β γ)) : ℕ → β → StateT σ Option γ
  | 0, _ => fun _ => none
  | n + 1, b => do
    match ← body b with
    | .next b' => loop body n b'
    | .done c => pure c

/-- `i` completed iterations of `body` lead from one loop state to another. -/
inductive Iters (body : β → StateT σ Option (Iter β γ)) : ℕ → β × σ → β × σ → Prop where
  | refl {b s} : Iters body 0 (b, s) (b, s)
  | step {i b s b' s' e} : (body b).run s = some (.next b', s') → Iters body i (b', s') e →
      Iters body (i + 1) (b, s) e

variable {body : β → StateT σ Option (Iter β γ)} {b b' : β} {c : γ} {s s' s'' : σ} {i j n : ℕ}

theorem loop_next (h : (body b).run s = some (.next b', s')) :
    (loop body (n + 1) b).run s = (loop body n b').run s' := by
  simp [loop, h]

theorem loop_done (h : (body b).run s = some (.done c, s')) :
    (loop body (n + 1) b).run s = some (c, s') := by
  simp [loop, h]

namespace Iters

theorem one (h : (body b).run s = some (.next b', s')) : Iters body 1 (b, s) (b', s') :=
  .step h .refl

theorem trans {e₁ e₂ e₃ : β × σ} (h₁ : Iters body i e₁ e₂) (h₂ : Iters body j e₂ e₃) :
    Iters body (i + j) e₁ e₃ := by
  induction h₁ with
  | refl => rwa [Nat.zero_add]
  | @step i _ _ _ _ _ hb _ ih =>
    rw [Nat.add_right_comm]
    exact .step hb (ih h₂)

theorem loop_add (h : Iters body i (b, s) (b', s')) :
    (loop body (i + n) b).run s = (loop body n b').run s' := by
  generalize he : (b, s) = e at h
  generalize he' : (b', s') = e' at h
  induction h generalizing b s with
  | refl => cases he; cases he'; rw [Nat.zero_add]
  | @step i _ _ b₁ s₁ _ hb _ ih =>
    cases he
    rw [Nat.add_right_comm, loop_next hb]
    exact ih rfl he'

end Iters

/-- **Enough iterations give the result.** -/
theorem loop_eq (h : Iters body i (b, s) (b', s')) (hd : (body b').run s' = some (.done c, s''))
    (hn : i < n) : (loop body n b).run s = some (c, s'') := by
  obtain ⟨m, rfl⟩ := Nat.exists_eq_add_of_lt hn
  rw [Nat.add_assoc, h.loop_add, loop_done hd]

/-- Without an iteration left there is no result. -/
theorem loop_out (h : Iters body i (b, s) (b', s')) (hn : n ≤ i) : (loop body n b).run s = none := by
  generalize he : (b, s) = e at h
  generalize (b', s') = e' at h
  induction h generalizing b s n with
  | refl =>
    rw [Nat.le_zero.1 hn]
    rfl
  | step hb _ ih =>
    cases he
    cases n with
    | zero => rfl
    | succ n =>
      rw [loop_next hb]
      exact ih (Nat.le_of_succ_le_succ hn) rfl

/-- A body that never leaves does not give a result. -/
theorem loop_none (h : ∀ b s, ∃ b' s', (body b).run s = some (.next b', s')) (n : ℕ) (b : β) (s : σ) :
    (loop body n b).run s = none := by
  induction n generalizing b s with
  | zero => rfl
  | succ n ih =>
    obtain ⟨b', s', hb⟩ := h b s
    rw [loop_next hb]
    exact ih b' s'

end Looping
