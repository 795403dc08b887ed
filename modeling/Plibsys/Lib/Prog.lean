/-
  Programs that make calls of a system.

  A program is a tree of calls; `exec` runs it against a system that answers each call and
  changes its state.  The same program can be run against several systems.
-/
import Mathlib.Data.Nat.Notation

namespace Programs

/-- A program that ends with `α`; a loop that does not end within its bound is `stuck`. -/
inductive Prog (Call : Type) (Reply : Call → Type) (α : Type) where
  | ret (a : α)
  | stuck
  | call (c : Call) (k : Reply c → Prog Call Reply α)

variable {Call : Type} {Reply : Call → Type} {α β S : Type}

namespace Prog

def bind : Prog Call Reply α → (α → Prog Call Reply β) → Prog Call Reply β
  | ret a, f => f a
  | stuck, _ => stuck
  | call c k, f => call c fun r => (k r).bind f

instance : Monad (Prog Call Reply) where
  pure := ret
  bind := bind

/-- Make one call. -/
def perform (c : Call) : Prog Call Reply (Reply c) := call c ret

/-- A result that may be missing. -/
def ofOption : Option α → Prog Call Reply α
  | some a => ret a
  | none => stuck

variable (sys : (c : Call) → S → Reply c × S)

/-- Run a program. -/
def exec : Prog Call Reply α → S → Option (α × S)
  | ret a, s => some (a, s)
  | stuck, _ => none
  | call c k, s => (k (sys c s).1).exec (sys c s).2

@[simp] theorem exec_ret (a : α) (s : S) : (ret a : Prog Call Reply α).exec sys s = some (a, s) := rfl

@[simp] theorem exec_pure (a : α) (s : S) : (pure a : Prog Call Reply α).exec sys s = some (a, s) := rfl

@[simp] theorem exec_perform (c : Call) (s : S) : (perform c).exec sys s = some (sys c s) := rfl

@[simp] theorem exec_ofOption_some (a : α) (s : S) :
    (ofOption (some a) : Prog Call Reply α).exec sys s = some (a, s) := rfl

@[simp] theorem exec_bind (p : Prog Call Reply α) (f : α → Prog Call Reply β) (s : S) :
    (p >>= f).exec sys s = (p.exec sys s).bind fun r => (f r.1).exec sys r.2 := by
  change (p.bind f).exec sys s = _
  induction p generalizing s with
  | ret a => rfl
  | stuck => rfl
  | call c k ih => exact ih _ _

variable {sys} {p : Prog Call Reply α} {f : α → Prog Call Reply β} {a : α} {s s' : S}

/-- The first part of a program has run. -/
theorem exec_bind_of (h : p.exec sys s = some (a, s')) : (p >>= f).exec sys s = (f a).exec sys s' := by
  rw [exec_bind, h]
  rfl

/-! ## What a program achieves -/

variable (sys) (p) (s) in
/-- The program ends, and `Q` holds of its result and of the state. -/
def Ends (Q : α → S → Prop) : Prop := ∃ a s', p.exec sys s = some (a, s') ∧ Q a s'

variable {Q : α → S → Prop} {R : β → S → Prop}

theorem Ends.pure (h : Q a s) : Ends sys (pure a) s Q := ⟨a, s, rfl, h⟩

theorem Ends.mono {Q' : α → S → Prop} (hp : Ends sys p s Q) (h : ∀ a s', Q a s' → Q' a s') : Ends sys p s Q' := by
  obtain ⟨a, s', hexec, hQ⟩ := hp
  exact ⟨a, s', hexec, h a s' hQ⟩

/-- A run has one end. -/
theorem Ends.and {Q' : α → S → Prop} (hp : Ends sys p s Q) (hp' : Ends sys p s Q') :
    Ends sys p s fun a s' => Q a s' ∧ Q' a s' := by
  obtain ⟨a, s', hexec, hQ⟩ := hp
  obtain ⟨a', s'', hexec', hQ'⟩ := hp'
  cases hexec.symm.trans hexec'
  exact ⟨a, s', hexec, hQ, hQ'⟩

theorem Ends.bind (hp : Ends sys p s Q) (hf : ∀ a s', Q a s' → Ends sys (f a) s' R) : Ends sys (p >>= f) s R := by
  obtain ⟨a, s', hexec, hQ⟩ := hp
  obtain ⟨b, s'', hexec', hR⟩ := hf a s' hQ
  exact ⟨b, s'', (exec_bind_of hexec).trans hexec', hR⟩

/-- The first part of the program has run. -/
theorem Ends.bind_of (hp : p.exec sys s = some (a, s')) (hf : Ends sys (f a) s' R) : Ends sys (p >>= f) s R := by
  obtain ⟨b, s'', hexec, hR⟩ := hf
  exact ⟨b, s'', (exec_bind_of hp).trans hexec, hR⟩

/-- The first call has been answered. -/
theorem Ends.perform {c : Call} {f : Reply c → Prog Call Reply β} (hf : Ends sys (f (sys c s).1) (sys c s).2 R) :
    Ends sys (perform c >>= f) s R := hf

/-! ## What a program returns, whatever the system answers -/

/-- `Q` holds of every result that the program may have. -/
def Returns : Prog Call Reply α → (α → Prop) → Prop
  | ret a, Q => Q a
  | stuck, _ => True
  | call _ k, Q => ∀ r, (k r).Returns Q

namespace Returns

variable {Q : α → Prop} {R : β → Prop}

theorem pure (h : Q a) : Returns (pure a : Prog Call Reply α) Q := h

theorem trivial (p : Prog Call Reply α) : p.Returns fun _ => True := by
  induction p with
  | ret a => exact True.intro
  | stuck => exact True.intro
  | call c k ih => exact ih

theorem bind (hp : p.Returns Q) (hf : ∀ a, Q a → (f a).Returns R) : (p >>= f).Returns R := by
  change (p.bind f).Returns R
  induction p with
  | ret a => exact hf a hp
  | stuck => exact True.intro
  | call c k ih => exact fun r => ih r (hp r)

/-- The result of the first part does not matter. -/
theorem bind_any (hf : ∀ a, (f a).Returns R) : (p >>= f).Returns R := (trivial p).bind fun a _ => hf a

end Returns

end Prog

end Programs
