/-
  Programs that run among others.

  Between two calls of a program the others may change the state of the system, as `rely` says.
  In return the program makes only such calls as the others can bear, as `guar` says.
-/
import Plibsys.Lib.Prog

namespace Programs

/-- What a program and the others expect of each other; a call that is not `ok` is never made. -/
structure Concord (Call S : Type) where
  rely : S → S → Prop
  ok : Call → Prop
  guar : Call → S → S → Prop
  refl : ∀ s, rely s s
  trans : ∀ {s s' s''}, rely s s' → rely s' s'' → rely s s''

namespace Prog

variable {Call : Type} {Reply : Call → Type} {α β S : Type}

section
variable (sys : (c : Call) → S → Reply c × S) (t : Concord Call S)

/-- Whatever the others do, the calls of the program keep `guar`, it does not get stuck, and `Q` holds
    from its end on. -/
def Amid (Q : α → S → Prop) : Prog Call Reply α → S → Prop
  | ret a, s => ∀ s', t.rely s s' → Q a s'
  | stuck, _ => False
  | call c k, s => ∀ s', t.rely s s' → t.ok c → t.guar c s' (sys c s').2 ∧ (k (sys c s').1).Amid Q (sys c s').2

end

variable {sys : (c : Call) → S → Reply c × S} {t : Concord Call S} {p p' p'' : Prog Call Reply α}
  {f : α → Prog Call Reply β} {a : α} {s s' s'' : S} {c : Call} {k : Reply c → Prog Call Reply α}

namespace Amid

variable {Q Q' : α → S → Prop} {R : β → S → Prop}

theorem pure (h : ∀ s', t.rely s s' → Q a s') : (pure a : Prog Call Reply α).Amid sys t Q s := h

/-- The others have changed the state. -/
theorem rely (h : p.Amid sys t Q s) (hs : t.rely s s') : p.Amid sys t Q s' := by
  cases p with
  | ret a => exact fun s'' h' => h s'' (t.trans hs h')
  | stuck => exact h
  | call c k => exact fun s'' h' => h s'' (t.trans hs h')

theorem mono (h : p.Amid sys t Q s) (hQ : ∀ a s', Q a s' → Q' a s') : p.Amid sys t Q' s := by
  induction p generalizing s with
  | ret a => exact fun s' hs => hQ a s' (h s' hs)
  | stuck => exact h
  | call c k ih =>
    intro s' hs hok
    obtain ⟨hguar, hk⟩ := h s' hs hok
    exact ⟨hguar, ih _ hk⟩

/-- What holds at the end of the first part holds from there on. -/
theorem bind_rely (h : p.Amid sys t Q s) (hf : ∀ a s', (∀ s'', t.rely s' s'' → Q a s'') → (f a).Amid sys t R s') :
    (p >>= f).Amid sys t R s := by
  change (p.bind f).Amid sys t R s
  induction p generalizing s with
  | ret a => exact hf a s h
  | stuck => exact h
  | call c k ih =>
    intro s' hs hok
    obtain ⟨hguar, hk⟩ := h s' hs hok
    exact ⟨hguar, ih _ hk⟩

theorem bind (h : p.Amid sys t Q s) (hf : ∀ a s', Q a s' → (f a).Amid sys t R s') : (p >>= f).Amid sys t R s :=
  h.bind_rely fun a s' hQ => hf a s' (hQ s' (t.refl s'))

/-- The first call. -/
theorem perform {f : Reply c → Prog Call Reply β} (h : ∀ s', t.rely s s' → t.ok c →
    t.guar c s' (sys c s').2 ∧ (f (sys c s').1).Amid sys t R (sys c s').2) :
    (Prog.perform c >>= f).Amid sys t R s := h

/-- One call is made. -/
theorem step (h : (call c k).Amid sys t Q s) (hok : t.ok c) :
    t.guar c s (sys c s).2 ∧ (k (sys c s).1).Amid sys t Q (sys c s).2 := h s (t.refl s) hok

end Amid

/-! ## Programs that run alone -/

variable (sys) (P : Call → Prop)

/-- The program gets from one place to another by calls that satisfy `P`. -/
inductive Steps : Prog Call Reply α → S → Prog Call Reply α → S → Prop
  | refl (p : Prog Call Reply α) (s : S) : Steps p s p s
  | call {c : Call} {k : Reply c → Prog Call Reply α} {s s' : S} {p' : Prog Call Reply α} (hc : P c)
      (h : Steps (k (sys c s).1) (sys c s).2 p' s') : Steps (call c k) s p' s'

variable {sys} {P}

namespace Steps

theorem trans (h : Steps sys P p s p' s') (h' : Steps sys P p' s' p'' s'') : Steps sys P p s p'' s'' := by
  induction h with
  | refl p s => exact h'
  | call hc _ ih => exact .call hc (ih h')

theorem bind (h : Steps sys P p s p' s') : Steps sys P (p >>= f) s (p' >>= f) s' := by
  induction h with
  | refl => exact .refl _ _
  | call hc _ ih => exact .call hc ih

/-- The first part has run. -/
theorem bind_of (h : Steps sys P p s (ret a) s') : Steps sys P (p >>= f) s (f a) s' := h.bind

theorem of_exec (h : p.exec sys s = some (a, s')) : Steps sys (fun _ => True) p s (ret a) s' := by
  induction p generalizing s with
  | ret b =>
    cases h
    exact .refl _ _
  | stuck => cases h
  | call c k ih => exact .call trivial (ih _ h)

theorem exec (h : Steps sys P p s (ret a) s') : p.exec sys s = some (a, s') := by
  generalize hp : ret a = p' at h
  induction h with
  | refl p s =>
    subst hp
    rfl
  | call _ _ ih => exact ih hp

end Steps

variable (sys) in
/-- The program comes to a place of which `Q` holds. -/
def Comes (Q : Prog Call Reply α → S → Prop) (p : Prog Call Reply α) (s : S) : Prop :=
  ∃ p' s', Steps sys (fun _ => True) p s p' s' ∧ Q p' s'

theorem Comes.bind {Q : Prog Call Reply α → S → Prop} {R : Prog Call Reply β → S → Prop} (h : Comes sys Q p s)
    (hf : ∀ p' s', Q p' s' → R (p' >>= f) s') : Comes sys R (p >>= f) s := by
  obtain ⟨p', s', hsteps, hQ⟩ := h
  exact ⟨p' >>= f, s', hsteps.bind, hf p' s' hQ⟩

/-- The first part has run. -/
theorem Comes.bind_of {R : Prog Call Reply β → S → Prop} (hp : p.exec sys s = some (a, s'))
    (hf : Comes sys R (f a) s') :
    Comes sys R (p >>= f) s := by
  obtain ⟨q, s'', hsteps, hR⟩ := hf
  exact ⟨q, s'', (Steps.of_exec hp).bind_of.trans hsteps, hR⟩

/-- **Alone**: among others that do nothing a program ends as it does among any others. -/
theorem Amid.alone {Q : α → S → Prop} {R : S → S → Prop} (h : p.Amid sys t Q s) (hok : ∀ c, t.ok c)
    (hP : ∀ c s s', t.guar c s s' → P c) (hR : ∀ c s s', t.guar c s s' → R s s') (hrefl : ∀ s, R s s)
    (htrans : ∀ s s' s'', R s s' → R s' s'' → R s s'') :
    ∃ a s', Steps sys P p s (ret a) s' ∧ R s s' ∧ Q a s' := by
  induction p generalizing s with
  | ret a => exact ⟨a, s, .refl _ s, hrefl s, h s (t.refl s)⟩
  | stuck => exact h.elim
  | call c k ih =>
    obtain ⟨hguar, hk⟩ := h.step (hok c)
    obtain ⟨a, s', hsteps, hs', hQ⟩ := ih _ hk
    exact ⟨a, s', .call (hP c s _ hguar) hsteps, htrans _ _ _ (hR c s _ hguar) hs', hQ⟩

end Prog

end Programs
