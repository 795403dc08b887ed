/-
  What a program does, whatever the system answers.

  A trace is the list of calls that were made, each with its answer.  A law says which answers a system may
  give in a state, and which state follows; a program is safe when what it ends with is right under every such
  system.
-/
import Mathlib.Tactic.Common
import Plibsys.Lib.Prog

namespace Programs

variable {Call : Type} {Reply : Call → Type} {α β S : Type}

/-- Calls with their answers. -/
abbrev Exchanges (Reply : Call → Type) := List ((c : Call) × Reply c)

namespace Prog

/-- The program makes these calls, is given these answers, and ends with `a`. -/
inductive Trace : Prog Call Reply α → Exchanges Reply → α → Prop where
  | ret {a} : Trace (ret a) [] a
  | call {c k r t a} : Trace (k r) t a → Trace (call c k) (⟨c, r⟩ :: t) a

variable {p : Prog Call Reply α} {f : α → Prog Call Reply β} {a b : α} {c : Call} {s : S} {t t' : Exchanges Reply}
  {n : ℕ}

theorem trace_pure : Trace (pure a : Prog Call Reply α) t b ↔ t = [] ∧ b = a := by
  constructor
  · rintro ⟨⟩
    exact ⟨rfl, rfl⟩
  · rintro ⟨rfl, rfl⟩
    exact .ret

theorem not_trace_stuck : ¬ Trace (stuck : Prog Call Reply α) t b := by
  rintro ⟨⟩

theorem trace_perform_bind {f : Reply c → Prog Call Reply β} {b : β} :
    Trace (perform c >>= f) t b ↔ ∃ r t', t = ⟨c, r⟩ :: t' ∧ Trace (f r) t' b := by
  constructor
  · intro h
    change Trace (call c f) t b at h
    cases h with
    | call h => exact ⟨_, _, rfl, h⟩
  · rintro ⟨r, t', rfl, h⟩
    exact Trace.call (k := f) h

theorem trace_bind {b : β} : Trace (p >>= f) t b ↔ ∃ t₁ t₂ a, t = t₁ ++ t₂ ∧ Trace p t₁ a ∧ Trace (f a) t₂ b := by
  change Trace (p.bind f) t b ↔ _
  induction p generalizing t with
  | ret a =>
    constructor
    · exact fun h => ⟨[], t, a, rfl, .ret, h⟩
    · rintro ⟨t₁, t₂, a', rfl, h₁, h₂⟩
      cases h₁
      exact h₂
  | stuck =>
    constructor
    · intro h
      exact absurd h not_trace_stuck
    · rintro ⟨t₁, t₂, a', rfl, h₁, -⟩
      exact absurd h₁ not_trace_stuck
  | call c k ih =>
    constructor
    · intro h
      cases h with
      | call h =>
        obtain ⟨t₁, t₂, a', rfl, h₁, h₂⟩ := (ih _).1 h
        exact ⟨_ :: t₁, t₂, a', rfl, .call h₁, h₂⟩
    · rintro ⟨t₁, t₂, a', rfl, h₁, h₂⟩
      cases h₁ with
      | call h₁ => exact .call ((ih _).2 ⟨_, t₂, a', rfl, h₁, h₂⟩)

theorem bind_bind {γ : Type} (p : Prog Call Reply α) (f : α → Prog Call Reply β) (g : β → Prog Call Reply γ) :
    p >>= f >>= g = p >>= fun a => f a >>= g := by
  change (p.bind f).bind g = p.bind fun a => (f a).bind g
  induction p with
  | ret a => rfl
  | stuck => rfl
  | call c k ih => exact congrArg (call c) (funext ih)

/-- `for (;;)` with a body that goes on (`none`) or leaves the loop. -/
def forever (body : Prog Call Reply (Option β)) : ℕ → Prog Call Reply β
  | 0 => stuck
  | n + 1 => do
    let some b ← body | forever body n
    return b

theorem trace_forever {body : Prog Call Reply (Option β)} {b : β} : Trace (forever body (n + 1)) t b ↔
    Trace body t (some b) ∨ ∃ t₁ t₂, t = t₁ ++ t₂ ∧ Trace body t₁ none ∧ Trace (forever body n) t₂ b := by
  rw [forever, trace_bind]
  constructor
  · rintro ⟨t₁, t₂, _ | b', rfl, h₁, h₂⟩
    · exact .inr ⟨t₁, t₂, rfl, h₁, h₂⟩
    · obtain ⟨rfl, rfl⟩ := trace_pure.1 h₂
      rw [List.append_nil]
      exact .inl h₁
  · rintro (h | ⟨t₁, t₂, rfl, h₁, h₂⟩)
    · exact ⟨t, [], some b, (List.append_nil t).symm, h, trace_pure.2 ⟨rfl, rfl⟩⟩
    · exact ⟨t₁, t₂, none, rfl, h₁, h₂⟩

/-! ## Enough fuel -/

/-- With enough fuel, `p` makes these calls and ends with `a`. -/
def Traces (p : ℕ → Prog Call Reply α) (t : Exchanges Reply) (a : α) : Prop := ∃ n, Trace (p n) t a

/-- More fuel does not change what has ended. -/
def Steady (p : ℕ → Prog Call Reply α) : Prop := ∀ ⦃n m⦄, n ≤ m → ∀ ⦃t a⦄, Trace (p n) t a → Trace (p m) t a

theorem Steady.const : Steady fun _ => p := fun _ _ _ _ _ h => h

theorem Steady.bind {p : ℕ → Prog Call Reply α} {f : ℕ → α → Prog Call Reply β} (hp : Steady p)
    (hf : ∀ a, Steady fun n => f n a) : Steady fun n => p n >>= f n := by
  intro n m hnm t b h
  obtain ⟨t₁, t₂, a, rfl, h₁, h₂⟩ := trace_bind.1 h
  exact trace_bind.2 ⟨t₁, t₂, a, rfl, hp hnm h₁, hf a hnm h₂⟩

section
variable {body : ℕ → Prog Call Reply (Option β)}

theorem trace_forever_le (hbody : Steady body) {k l m : ℕ} {b : β} (hnm : n ≤ m) (hkl : k ≤ l)
    (h : Trace (forever (body n) k) t b) : Trace (forever (body m) l) t b := by
  induction k generalizing l t with
  | zero => exact absurd h not_trace_stuck
  | succ k ih =>
    obtain ⟨l, rfl⟩ := Nat.exists_eq_add_of_lt hkl
    rw [trace_forever] at h ⊢
    rcases h with h | ⟨t₁, t₂, rfl, h₁, h₂⟩
    · exact .inl (hbody hnm h)
    · exact .inr ⟨t₁, t₂, rfl, hbody hnm h₁, ih (Nat.le_add_right k l) h₂⟩

theorem Steady.forever (hbody : Steady body) : Steady fun n => forever (body n) n := by
  intro n m hnm t b h
  exact trace_forever_le hbody hnm hnm h

/-- A loop leaves in this round, or goes on. -/
theorem traces_forever {b : β} (hbody : Steady body) : Traces (fun n => forever (body n) n) t b ↔
    Traces body t (some b) ∨
      ∃ t₁ t₂, t = t₁ ++ t₂ ∧ Traces body t₁ none ∧ Traces (fun n => forever (body n) n) t₂ b := by
  constructor
  · rintro ⟨_ | n, h⟩
    · exact absurd h not_trace_stuck
    · rcases trace_forever.1 h with h | ⟨t₁, t₂, ht, h₁, h₂⟩
      · exact .inl ⟨n + 1, h⟩
      · exact .inr ⟨t₁, t₂, ht, ⟨n + 1, h₁⟩, n + 1, trace_forever_le hbody (Nat.le_refl _) n.le_succ h₂⟩
  · rintro (⟨n, h⟩ | ⟨t₁, t₂, ht, ⟨n, h₁⟩, m, h₂⟩)
    · exact ⟨n + 1, trace_forever.2 (.inl (hbody n.le_succ h))⟩
    · refine ⟨n + m + 1, trace_forever.2 (.inr ⟨t₁, t₂, ht, ?_, ?_⟩)⟩
      · exact hbody (by omega) h₁
      · exact trace_forever_le hbody (by omega) (by omega) h₂

end

theorem traces_const : Traces (fun _ => p) t a ↔ Trace p t a := by
  constructor
  · rintro ⟨n, h⟩
    exact h
  · intro h
    exact ⟨0, h⟩

theorem traces_pure : Traces (fun _ => (pure a : Prog Call Reply α)) t b ↔ a = b ∧ t = [] := by
  rw [traces_const, trace_pure, and_comm, eq_comm]

theorem traces_bind {p : ℕ → Prog Call Reply α} {f : ℕ → α → Prog Call Reply β} {b : β} (hp : Steady p)
    (hf : ∀ a, Steady fun n => f n a) : Traces (fun n => p n >>= f n) t b ↔
      ∃ t₁ t₂ a, t = t₁ ++ t₂ ∧ Traces p t₁ a ∧ Traces (fun n => f n a) t₂ b := by
  constructor
  · rintro ⟨n, h⟩
    obtain ⟨t₁, t₂, a, ht, h₁, h₂⟩ := trace_bind.1 h
    exact ⟨t₁, t₂, a, ht, ⟨n, h₁⟩, n, h₂⟩
  · rintro ⟨t₁, t₂, a, ht, ⟨n, h₁⟩, m, h₂⟩
    exact ⟨n + m, trace_bind.2 ⟨t₁, t₂, a, ht, hp (n.le_add_right m) h₁, hf a (m.le_add_left n) h₂⟩⟩

theorem traces_perform_bind {f : ℕ → Reply c → Prog Call Reply β} {b : β} :
    Traces (fun n => perform c >>= f n) t b ↔ ∃ r t', t = ⟨c, r⟩ :: t' ∧ Traces (fun n => f n r) t' b := by
  constructor
  · rintro ⟨n, h⟩
    obtain ⟨r, t', ht, h⟩ := trace_perform_bind.1 h
    exact ⟨r, t', ht, n, h⟩
  · rintro ⟨r, t', ht, n, h⟩
    exact ⟨n, trace_perform_bind.2 ⟨r, t', ht, h⟩⟩

/-- What follows a round of a loop. -/
def resume (body : Prog Call Reply (Option β)) (n : ℕ) : Option β → Prog Call Reply β
  | some b => pure b
  | none => forever body n

theorem Steady.resume {body : ℕ → Prog Call Reply (Option β)} (hbody : Steady body) :
    ∀ o, Steady fun n => Prog.resume (body n) n o := by
  rintro (_ | b)
  · exact hbody.forever
  · exact Steady.const

/-- A loop is its first round and what follows. -/
theorem traces_unroll {body : ℕ → Prog Call Reply (Option β)} {b : β} (hbody : Steady body) :
    Traces (fun n => forever (body n) n) t b ↔ Traces (fun n => body n >>= resume (body n) n) t b := by
  rw [traces_forever hbody, traces_bind hbody hbody.resume]
  constructor
  · rintro (h | ⟨t₁, t₂, rfl, h₁, h₂⟩)
    · exact ⟨t, [], some b, (List.append_nil t).symm, h, 0, Trace.ret⟩
    · exact ⟨t₁, t₂, none, rfl, h₁, h₂⟩
  · rintro ⟨t₁, t₂, _ | b', rfl, h₁, h₂⟩
    · exact .inr ⟨t₁, t₂, rfl, h₁, h₂⟩
    · obtain ⟨rfl, rfl⟩ := trace_pure.1 (traces_const.1 h₂)
      rw [List.append_nil]
      exact .inl h₁

section
variable {g : Reply c → Option α}

/-- A round of a loop of one call. -/
theorem traces_forever_round : Traces (fun n => forever (perform c >>= fun r => pure (g r)) n) t a ↔ ∃ r t',
    t = ⟨c, r⟩ :: t' ∧ (g r).elim (Traces (fun n => forever (perform c >>= fun r => pure (g r)) n) t' a)
      fun a' => a' = a ∧ t' = [] := by
  rw [traces_unroll Steady.const]
  simp only [bind_bind]
  rw [traces_perform_bind]
  refine exists_congr fun r => exists_congr fun t' => and_congr_right fun _ => ?_
  cases hg : g r with
  | none => rfl
  | some a' => exact traces_pure

/-- A loop of one call makes it until an answer decides. -/
theorem traces_retry : Traces (fun n => forever (perform c >>= fun r => pure (g r)) n) t a ↔
    ∃ (u : List (Reply c)) (r : Reply c), t = u.map (Sigma.mk c) ++ [⟨c, r⟩] ∧ (∀ r' ∈ u, g r' = none) ∧
      g r = some a := by
  induction t with
  | nil =>
    rw [traces_forever_round]
    constructor
    · rintro ⟨r, t', ht, -⟩
      cases ht
    · rintro ⟨u, r, ht, -⟩
      cases u <;> cases ht
  | cons e t ih =>
    rw [traces_forever_round]
    constructor
    · rintro ⟨r, t', ht, hr⟩
      cases ht
      cases hg : g r with
      | none =>
        rw [hg] at hr
        obtain ⟨u, r', rfl, hu, hr'⟩ := ih.1 hr
        exact ⟨r :: u, r', rfl, List.forall_mem_cons.2 ⟨hg, hu⟩, hr'⟩
      | some a' =>
        rw [hg] at hr
        obtain ⟨rfl, rfl⟩ := hr
        exact ⟨[], r, rfl, List.forall_mem_nil _, hg⟩
    · rintro ⟨_ | ⟨r, u⟩, r', ht, hu, hr'⟩
      · cases ht
        refine ⟨r', [], rfl, ?_⟩
        rw [hr']
        exact ⟨rfl, rfl⟩
      · cases ht
        obtain ⟨hr, hu⟩ := List.forall_mem_cons.1 hu
        refine ⟨r, _, rfl, ?_⟩
        rw [hr]
        exact ih.2 ⟨u, r', rfl, hu, hr'⟩

/-- A loop of one call, and what follows it. -/
theorem traces_forever_call {f : ℕ → α → Prog Call Reply β} {b : β} (hf : ∀ a, Steady fun n => f n a) :
    Traces (fun n => forever (perform c >>= fun r => pure (g r)) n >>= f n) t b ↔ ∃ r t', t = ⟨c, r⟩ :: t' ∧
      (g r).elim (Traces (fun n => forever (perform c >>= fun r => pure (g r)) n >>= f n) t' b)
        fun a => Traces (fun n => f n a) t' b := by
  have hloop : Steady fun n => forever (perform c >>= fun r => pure (g r)) n := Steady.const.forever
  rw [traces_bind hloop hf]
  constructor
  · rintro ⟨t₁, t₂, a, rfl, h₁, h₂⟩
    obtain ⟨r, t', rfl, hg⟩ := traces_forever_round.1 h₁
    refine ⟨r, t' ++ t₂, rfl, ?_⟩
    cases hr : g r with
    | none =>
      rw [hr] at hg
      exact (traces_bind hloop hf).2 ⟨t', t₂, a, rfl, hg, h₂⟩
    | some a' =>
      rw [hr] at hg
      obtain ⟨rfl, rfl⟩ := hg
      exact h₂
  · rintro ⟨r, t', rfl, hg⟩
    cases hr : g r with
    | none =>
      rw [hr] at hg
      obtain ⟨t₁, t₂, a, rfl, h₁, h₂⟩ := (traces_bind hloop hf).1 hg
      refine ⟨⟨c, r⟩ :: t₁, t₂, a, rfl, traces_forever_round.2 ⟨r, t₁, rfl, ?_⟩, h₂⟩
      rw [hr]
      exact h₁
    | some a' =>
      rw [hr] at hg
      refine ⟨[⟨c, r⟩], t', a', rfl, traces_forever_round.2 ⟨r, [], rfl, ?_⟩, hg⟩
      rw [hr]
      exact ⟨rfl, rfl⟩

end

/-! ## Machines -/

section
variable {ι : Type} (call : ι → Call) (after : (i : ι) → Reply (call i) → ι ⊕ β) (b : β)

/-- The calls of a machine: in the state `i` it makes one call, and `after` says in which state it goes on, or
    with what it ends. -/
def Talks : ι → Exchanges Reply → Prop
  | _, [] => False
  | i, e :: t => ∃ r, e = ⟨call i, r⟩ ∧ (after i r).elim (fun j => Talks j t) fun b' => b' = b ∧ t = []

variable {call after b}

/-- A program that steps as the machine does has its traces. -/
theorem traces_iff_talks {P : ι → ℕ → Prog Call Reply β}
    (h : ∀ i t, Traces (P i) t b ↔ ∃ r t', t = ⟨call i, r⟩ :: t' ∧
      (after i r).elim (fun j => Traces (P j) t' b) fun b' => b' = b ∧ t' = []) (i : ι) (t : Exchanges Reply) :
    Traces (P i) t b ↔ Talks call after b i t := by
  induction t generalizing i with
  | nil =>
    rw [h]
    constructor
    · rintro ⟨r, t', ht, -⟩
      cases ht
    · exact False.elim
  | cons e t ih =>
    have hih : (fun j => Traces (P j) t b) = fun j => Talks call after b j t := funext fun j => propext (ih j)
    rw [h, Talks, ← hih]
    constructor
    · rintro ⟨r, t', ht, hr⟩
      cases ht
      exact ⟨r, rfl, hr⟩
    · rintro ⟨r, rfl, hr⟩
      exact ⟨r, t, rfl, hr⟩

end

/-! ## Safety -/

/-- Whatever a system that obeys the law answers, `Q` holds when the program ends. -/
def Safe (law : (c : Call) → S → Reply c → S → Prop) : Prog Call Reply α → S → (α → S → Prop) → Prop
  | ret a, s, Q => Q a s
  | stuck, _, _ => True
  | call c k, s, Q => ∀ r s', law c s r s' → Safe law (k r) s' Q

namespace Safe

variable {law : (c : Call) → S → Reply c → S → Prop} {Q Q' : α → S → Prop} {R : β → S → Prop}

theorem pure (h : Q a s) : Safe law (Pure.pure a) s Q := h

theorem mono (hp : Safe law p s Q) (h : ∀ a s, Q a s → Q' a s) : Safe law p s Q' := by
  induction p generalizing s with
  | ret a => exact h a s hp
  | stuck => exact True.intro
  | call c k ih => exact fun r s' hlaw => ih r (hp r s' hlaw)

theorem bind (hp : Safe law p s Q) (hf : ∀ a s, Q a s → Safe law (f a) s R) : Safe law (p >>= f) s R := by
  change Safe law (p.bind f) s R
  induction p generalizing s with
  | ret a => exact hf a s hp
  | stuck => exact True.intro
  | call c k ih => exact fun r s' hlaw => ih r (hp r s' hlaw)

theorem perform {f : Reply c → Prog Call Reply β} (h : ∀ r s', law c s r s' → Safe law (f r) s' R) :
    Safe law (Prog.perform c >>= f) s R := h

/-- An invariant of the body is one of the loop. -/
theorem forever {body : Prog Call Reply (Option β)} {I : S → Prop}
    (hbody : ∀ s, I s → Safe law body s fun r s' => match r with | none => I s' | some b => R b s') (hs : I s) :
    Safe law (Prog.forever body n) s R := by
  induction n generalizing s with
  | zero => exact True.intro
  | succ n ih =>
    refine bind (hbody s hs) ?_
    rintro (_ | b) s' h
    · exact ih h
    · exact pure h

end Safe

/-- A run of the program against a system that obeys the law. -/
inductive Runs (law : (c : Call) → S → Reply c → S → Prop) : Prog Call Reply α → S → α → S → Prop where
  | ret (a : α) (s : S) : Runs law (ret a) s a s
  | call (c : Call) (k : Reply c → Prog Call Reply α) (r : Reply c) (a : α) (s s' s'' : S) :
    law c s r s' → Runs law (k r) s' a s'' → Runs law (call c k) s a s''

/-- What is safe is right in every run. -/
theorem Safe.of_runs {law : (c : Call) → S → Reply c → S → Prop} {Q : α → S → Prop} {s' : S} (hp : Safe law p s Q)
    (hrun : Runs law p s a s') : Q a s' := by
  induction hrun with
  | ret a s => exact hp
  | call c k r a s s' s'' hlaw _ ih => exact ih (hp _ _ hlaw)

end Prog

end Programs
