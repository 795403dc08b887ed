/-
  Who owns the references to the thread objects, in every state that the threads reach.

  As long as an object has an owner it is not freed, and its counter is the number of the owners
  from the moment the creator has stored it.
-/
import Plibsys.Thread.UThread

namespace Plibsys

open Interleaving

variable {ι : Type}

/-- Nothing has happened to an object. -/
structure SameObject (s s' : UThreads ι) (p : ppointer) : Prop where
  owners : s'.owners p = s.owners p
  objects : s'.objects p = s.objects p
  frees : s'.frees p = s.frees p
  given : s'.given p = s.given p

section
variable {s s' s'' : UThreads ι} {i : ι} {p q : ppointer} {m : Multiset (Owner ι)} {x : Owner ι}

theorem sameObject_setOwners (hq : q ≠ p) : SameObject s (s.setOwners p m) q :=
  ⟨Function.update_of_ne hq .., rfl, rfl, rfl⟩

theorem sameObject_modify {f : PUThreadBase → PUThreadBase} (hq : q ≠ p) : SameObject s (s.modify p f) q :=
  ⟨rfl, Function.update_of_ne hq .., rfl, rfl⟩

theorem sameObject_free (hq : q ≠ p) : SameObject s (s.free p) q :=
  ⟨Function.update_of_ne hq .., rfl, Function.update_of_ne hq .., rfl⟩

theorem SameObject.trans (h : SameObject s s' q) (h' : SameObject s' s'' q) : SameObject s s'' q :=
  ⟨h'.owners.trans h.owners, h'.objects.trans h.objects, h'.frees.trans h.frees, h'.given.trans h.given⟩

theorem owners_ne_zero (hx : x ∈ s.owners p) : s.owners p ≠ 0 := fun h0 =>
  Multiset.notMem_zero x (h0 ▸ hx)

theorem given_publish {func data : ppointer} : (s.publish p func data).given p = some (func, data) :=
  Function.update_self ..

theorem sameObject_publish {func data : ppointer} (hq : q ≠ p) : SameObject s (s.publish p func data) q :=
  ⟨rfl, rfl, rfl, Function.update_of_ne hq ..⟩

theorem owners_setOwners : (s.setOwners p m).owners p = m := Function.update_self ..

theorem frees_free : (s.free p).frees p = s.frees p + 1 := Function.update_self ..

theorem owners_malloc {joinable : Bool} : (s.malloc i joinable).owners s.nextObject = {.busy i} :=
  Function.update_self ..

theorem sameObject_malloc {joinable : Bool} (hq : q ≠ s.nextObject) : SameObject s (s.malloc i joinable) q :=
  ⟨Function.update_of_ne hq .., Function.update_of_ne hq .., rfl, rfl⟩

end

/-- The object whose reference the thread itself owns: the one in its slot, or on its way there, or
    about to be given back.  In `pp_uthread_proxy` it is its own object, also if it is not in the slot. -/
def selfOf (s : UThreads ι) (i : ι) : UThreadPlace → ppointer
  | .unborn => (s.started i).getD NULL
  | .proxySet p | .proxyLock p | .proxyUnlock p | .proxyCall p | .currentSet p | .cleanup p => p
  | _ => s.pp_uthread_specific_data i

namespace UThreadPlace

/-- The object that belongs to the call. -/
def busyWith : UThreadPlace → Option ppointer
  | .createThread p _ _ _ | .createFree p | .currentCount p | .unrefFree p _ => some p
  | _ => none

/-- The object whose counter the call has yet to store. -/
def creates : UThreadPlace → Option ppointer
  | .createThread p _ _ _ | .createFree p | .currentCount p | .createStore p _ _ _ => some p
  | _ => none

/-- The thread has the spinlock. -/
def locked : UThreadPlace → Bool
  | .createMalloc .. | .createThread .. | .createFree _ | .createUnlock | .createStore .. | .proxyUnlock _ => true
  | _ => false

/-- What a thread knows of its slot, and of the object it works on. -/
def Knows (s : UThreads ι) (i : ι) : UThreadPlace → Prop
  | .unborn => s.pp_uthread_specific_data i = NULL ∧ s.started i ≠ some NULL
  | .proxySet p => s.pp_uthread_specific_data i = NULL ∧ p ≠ NULL
  | .proxyLock p => (s.pp_uthread_specific_data i = p ∨ s.pp_uthread_specific_data i = NULL) ∧ p ≠ NULL
  | .proxyUnlock p | .proxyCall p =>
    (s.pp_uthread_specific_data i = p ∨ s.pp_uthread_specific_data i = NULL) ∧ p ≠ NULL ∧ s.given p ≠ none
  | .currentMalloc | .gone => s.pp_uthread_specific_data i = NULL
  | .currentCount p =>
    s.pp_uthread_specific_data i = NULL ∧ (s.objects p).func = NULL ∧ (s.objects p).data = NULL
  | .currentSet p | .cleanup p => s.pp_uthread_specific_data i = NULL ∧ p ≠ NULL ∧ s.given p ≠ none
  | .createThread p _ _ _ =>
    s.given p = none ∧ (s.pp_uthread_specific_data i ≠ NULL → s.given (s.pp_uthread_specific_data i) ≠ none)
  | .createStore p func data fields =>
    s.given p = none ∧ (∃ k, s.owners p = {.self k, .caller i}) ∧
      (let o := fields.foldl (fun o field => field o) (s.objects p); o.ref_count = 2 ∧ o.func = func ∧
      o.data = data) ∧
      (s.pp_uthread_specific_data i ≠ NULL → s.given (s.pp_uthread_specific_data i) ≠ none)
  | _ => s.pp_uthread_specific_data i ≠ NULL → s.given (s.pp_uthread_specific_data i) ≠ none

end UThreadPlace

variable [DecidableEq ι]

/-- An object is freed once when nobody owns it any more, and not before. -/
structure ObjectOk (s : UThreads ι) (p : ppointer) : Prop where
  frees : s.frees p = if s.owners p = 0 then 1 else 0
  few : Multiset.card (s.owners p) < 2 ^ 32
  busy : ∀ i, .busy i ∈ s.owners p → s.owners p = {.busy i}
  stored : ∀ func data, s.given p = some (func, data) → (s.objects p).func = func ∧ (s.objects p).data = data
  count : s.given p ≠ none → s.owners p ≠ 0 → (∀ i, .busy i ∉ s.owners p) →
    (s.objects p).ref_count = Int32.ofNat (Multiset.card (s.owners p))

/-- The owners are as the place of the thread says. -/
structure ThreadOk (s : UThreads ι) (i : ι) (l : UThreadPlace) : Prop where
  self : ∀ p, (s.owners p).count (.self i) = if p ≠ NULL ∧ p = selfOf s i l then 1 else 0
  busy : ∀ p, (s.owners p).count (.busy i) = if l.busyWith = some p then 1 else 0
  spin : s.pp_uthread_new_spin = some i ↔ l.locked = true
  knows : l.Knows s i

structure UThreadInv (c : Config ι (UThreads ι) UThreadPlace) : Prop where
  next_pos : 0 < c.shared.nextObject
  fresh : ∀ p, p = NULL ∨ c.shared.nextObject ≤ p →
    c.shared.owners p = 0 ∧ c.shared.frees p = 0 ∧ c.shared.given p = none
  object : ∀ p, p ≠ NULL → p < c.shared.nextObject → ObjectOk c.shared p
  creating : ∀ p, c.shared.owners p ≠ 0 → c.shared.given p = none → ∃ i, (c.loc i).creates = some p
  thread : ∀ i, ThreadOk c.shared i (c.loc i)
  born : ∀ i, c.shared.started i = none → c.loc i = .unborn
  called : ∀ x ∈ c.shared.called, x.2 = some x.1

variable {c c' : Config ι (UThreads ι) UThreadPlace} {s s' : UThreads ι} {i j k : ι} {l l' : UThreadPlace}
  {p q : ppointer} {m : Multiset (Owner ι)} {x : Owner ι} {choice : UThreadChoice ι}

theorem ObjectOk.same (h : ObjectOk s p) (hsame : SameObject s s' p) : ObjectOk s' p := by
  obtain ⟨howners, hobjects, hfrees, hgiven⟩ := hsame
  refine ⟨?_, ?_, ?_, ?_, ?_⟩
  · rw [hfrees, howners, h.frees]
  · rw [howners]
    exact h.few
  · rw [howners]
    exact h.busy
  · rw [hgiven, hobjects]
    exact h.stored
  · rw [hgiven, howners, hobjects]
    exact h.count

/-! ## The other threads -/

/-- What a thread knows survives the steps of the others, when they leave the object alone that it
    creates. -/
theorem ThreadOk.other (h : ThreadOk s j l)
    (hself : ∀ q, (s'.owners q).count (.self j) = (s.owners q).count (.self j))
    (hbusy : ∀ q, (s'.owners q).count (.busy j) = (s.owners q).count (.busy j))
    (hspin : s'.pp_uthread_new_spin = some j ↔ s.pp_uthread_new_spin = some j)
    (hslot : s'.pp_uthread_specific_data j = s.pp_uthread_specific_data j) (hstarted : s'.started j = s.started j)
    (hgiven : ∀ q, s.given q ≠ none → s'.given q ≠ none)
    (hcreates : ∀ q, l.creates = some q → SameObject s s' q) : ThreadOk s' j l := by
  have hselfOf : selfOf s' j l = selfOf s j l := by
    cases l <;> simp only [selfOf, hslot, hstarted]
  refine ⟨fun q => ?_, fun q => ?_, hspin.trans h.spin, ?_⟩
  · rw [hself, hselfOf, h.self]
  · rw [hbusy, h.busy]
  · have hknows := h.knows
    cases l with
    | unborn =>
      simp only [UThreadPlace.Knows, hslot, hstarted] at hknows ⊢
      exact hknows
    | createThread p func data joinable =>
      obtain ⟨-, -, -, hgiven'⟩ := hcreates p rfl
      simp only [UThreadPlace.Knows, hslot, hgiven'] at hknows ⊢
      exact ⟨hknows.1, fun hnull => hgiven _ (hknows.2 hnull)⟩
    | createStore p func data fields =>
      obtain ⟨howners, hobjects, -, hgiven'⟩ := hcreates p rfl
      simp only [UThreadPlace.Knows, hslot, hgiven', howners, hobjects] at hknows ⊢
      exact ⟨hknows.1, hknows.2.1, hknows.2.2.1, fun hnull => hgiven _ (hknows.2.2.2 hnull)⟩
    | currentCount p =>
      simp only [UThreadPlace.Knows, hslot, (hcreates p rfl).objects] at hknows ⊢
      exact hknows
    | proxyUnlock p | proxyCall p | currentSet p | cleanup p =>
      simp only [UThreadPlace.Knows, hslot] at hknows ⊢
      exact ⟨hknows.1, hknows.2.1, hgiven p hknows.2.2⟩
    | proxySet p | proxyLock p | currentMalloc | gone =>
      simp only [UThreadPlace.Knows, hslot] at hknows ⊢
      exact hknows
    | _ =>
      simp only [UThreadPlace.Knows, hslot] at hknows ⊢
      exact fun hnull => hgiven _ (hknows hnull)

/-! ## One step -/

/-- A step happens to at most one object. -/
theorem UThreadInv.set (h : UThreadInv c) (p : ppointer) (hsame : ∀ q, q ≠ p → SameObject c.shared s q)
    (hle : c.shared.nextObject ≤ s.nextObject) (hlt : ∀ q, q < s.nextObject → q ≠ p → q < c.shared.nextObject)
    (hobject : SameObject c.shared s p ∧ s.nextObject = c.shared.nextObject ∨
      p ≠ NULL ∧ p < s.nextObject ∧ ObjectOk s p)
    (hcreates : ∀ q, (c.loc i).creates = some q → l.creates = some q ∨ s.owners q = 0 ∨ s.given q ≠ none)
    (hcreating : c.shared.owners p = 0 → s.owners p ≠ 0 → s.given p = none → l.creates = some p)
    (hgiven : s.given p = none → c.shared.given p = none)
    (hi : ThreadOk s i l) (hothers : ∀ j, j ≠ i → ThreadOk s j (c.loc j)) (hborn : c.shared.started i ≠ none)
    (hstarted : ∀ j, s.started j = none → c.shared.started j = none) (hcalled : ∀ x ∈ s.called, x.2 = some x.1) :
    UThreadInv (c.set i s l) := by
  refine ⟨Nat.lt_of_lt_of_le h.next_pos hle, fun q hq => ?_, fun q hnull hq => ?_, fun q howners hnone => ?_,
    forall_set hi hothers, ?_, hcalled⟩
  · have hold : c.shared.owners q = 0 ∧ c.shared.frees q = 0 ∧ c.shared.given q = none :=
      h.fresh q (hq.imp_right fun hge => Nat.le_trans hle hge)
    have hsameq : SameObject c.shared s q := by
      by_cases hqp : q = p
      · subst hqp
        rcases hobject with hsame | ⟨hnull, hlt, -⟩
        · exact hsame.1
        · rcases hq with hq | hq
          · exact absurd hq hnull
          · exact absurd hlt (Nat.not_lt_of_le hq)
      · exact hsame q hqp
    simp only [shared_set, hsameq.owners, hsameq.frees, hsameq.given]
    exact hold
  · by_cases hqp : q = p
    · subst hqp
      rcases hobject with ⟨hsame, hnext⟩ | ⟨-, -, hok⟩
      · exact (h.object q hnull (hnext ▸ hq)).same hsame
      · exact hok
    · exact (h.object q hnull (hlt q hq hqp)).same (hsame q hqp)
  · simp only [shared_set] at howners hnone
    have hfrom : c.shared.owners q ≠ 0 → c.shared.given q = none →
      ∃ j, ((c.set i s l).loc j).creates = some q := by
      intro howners' hnone'
      obtain ⟨j, hj⟩ := h.creating q howners' hnone'
      by_cases hji : j = i
      · subst hji
        refine ⟨j, ?_⟩
        rw [loc_set_self]
        rcases hcreates q hj with hl | h0 | hsome
        · exact hl
        · exact absurd h0 howners
        · exact absurd hnone hsome
      · exact ⟨j, (loc_set_of_ne hji).symm ▸ hj⟩
    by_cases hqp : q = p
    · subst hqp
      by_cases h0 : c.shared.owners q = 0
      · refine ⟨i, ?_⟩
        rw [loc_set_self]
        exact hcreating h0 howners hnone
      · exact hfrom h0 (hgiven hnone)
    · have hsameq := hsame q hqp
      exact hfrom (hsameq.owners ▸ howners) (hsameq.given ▸ hnone)
  · exact forall_set (P := fun j l => s.started j = none →
      l = UThreadPlace.unborn) (fun hi => absurd (hstarted i hi) hborn)
      fun j _ hj => h.born j (hstarted j hj)

/-- The thread takes the spinlock, releases it, or neither. -/
def SpinMove (c : Config ι (UThreads ι) UThreadPlace) (i : ι) (s : UThreads ι) (l : UThreadPlace) : Prop :=
  s.pp_uthread_new_spin = c.shared.pp_uthread_new_spin ∧ l.locked = (c.loc i).locked ∨
    c.shared.pp_uthread_new_spin = none ∧ s.pp_uthread_new_spin = some i ∧ l.locked = true ∨
    (c.loc i).locked = true ∧ s.pp_uthread_new_spin = none ∧ l.locked = false

theorem SpinMove.self (h : UThreadInv c) (hmove : SpinMove c i s l) :
    s.pp_uthread_new_spin = some i ↔ l.locked = true := by
  rcases hmove with ⟨hspin, hlocked⟩ | ⟨-, hspin, hlocked⟩ | ⟨-, hspin, hlocked⟩
  · rw [hspin, hlocked]
    exact (h.thread i).spin
  · simp only [hspin, hlocked]
  · simp only [hspin, hlocked, reduceCtorEq, Bool.false_eq_true]

theorem SpinMove.other (h : UThreadInv c) (hmove : SpinMove c i s l) (hj : j ≠ i) :
    s.pp_uthread_new_spin = some j ↔ c.shared.pp_uthread_new_spin = some j := by
  rcases hmove with ⟨hspin, -⟩ | ⟨hnone, hspin, -⟩ | ⟨hlocked, hspin, -⟩
  · rw [hspin]
  · simp only [hnone, hspin, Option.some_inj, reduceCtorEq, Ne.symm hj]
  · simp only [(h.thread i).spin.2 hlocked, hspin, Option.some_inj, reduceCtorEq, Ne.symm hj]

/-- A step that happens to no object. -/
theorem UThreadInv.quiet (h : UThreadInv c) (hsame : ∀ q, SameObject c.shared s q)
    (hnext : s.nextObject = c.shared.nextObject)
    (hslot : ∀ j, j ≠ i → s.pp_uthread_specific_data j = c.shared.pp_uthread_specific_data j)
    (hborn : c.shared.started i ≠ none) (hstarted : s.started = c.shared.started)
    (hself : selfOf s i l = selfOf c.shared i (c.loc i))
    (hbusy : l.busyWith = (c.loc i).busyWith) (hcreates : (c.loc i).creates = none ∨ l.creates = (c.loc i).creates)
    (hspin : SpinMove c i s l) (hknows : l.Knows s i) (hcalled : ∀ x ∈ s.called, x.2 = some x.1) :
    UThreadInv (c.set i s l) := by
  have hi := h.thread i
  refine h.set NULL (fun q _ => hsame q) (Nat.le_of_eq hnext.symm) (fun q hq _ => hnext ▸ hq)
    (.inl ⟨hsame NULL, hnext⟩) (fun q hq => .inl ?_) (fun h0 hne => absurd ((hsame NULL).owners.trans h0) hne)
    (fun hnone => (hsame NULL).given ▸ hnone) ⟨fun q => ?_, fun q => ?_, hspin.self h, hknows⟩ (fun j hj => ?_)
    hborn (fun j => by rw [hstarted]; exact id) hcalled
  · rcases hcreates with hnone | heq
    · rw [hnone] at hq
      cases hq
    · rw [heq]
      exact hq
  · rw [(hsame q).owners, hself, hi.self]
  · rw [(hsame q).owners, hbusy, hi.busy]
  · exact (h.thread j).other (fun q => by rw [(hsame q).owners]) (fun q => by rw [(hsame q).owners])
      (hspin.other h hj)
      (hslot j hj) (by rw [hstarted]) (fun q hq => (hsame q).given ▸ hq) fun q _ => hsame q

/-! ## The owners of an object -/

theorem UThreadInv.object_of_mem (h : UThreadInv c) (hx : x ∈ c.shared.owners p) :
    p ≠ NULL ∧ p < c.shared.nextObject ∧ ObjectOk c.shared p := by
  have hne : ¬(p = NULL ∨ c.shared.nextObject ≤ p) := fun hp => by
    rw [(h.fresh p hp).1] at hx
    exact absurd hx (Multiset.notMem_zero x)
  have hnull : p ≠ NULL := fun hp => hne (.inl hp)
  have hlt : p < c.shared.nextObject := Nat.lt_of_not_le fun hge => hne (.inr hge)
  exact ⟨hnull, hlt, h.object p hnull hlt⟩

theorem UThreadInv.frees_of_mem (h : UThreadInv c) (hx : x ∈ c.shared.owners p) : c.shared.frees p = 0 := by
  rw [(h.object_of_mem hx).2.2.frees, if_neg]
  intro h0
  rw [h0] at hx
  exact absurd hx (Multiset.notMem_zero x)

theorem ThreadOk.mem_self (h : ThreadOk s i l) (hnull : p ≠ NULL) (hp : p = selfOf s i l) :
    .self i ∈ s.owners p := by
  rw [← Multiset.count_pos, h.self, if_pos ⟨hnull, hp⟩]
  exact Nat.one_pos

theorem UThreadInv.owners_busy (h : UThreadInv c) (hl : (c.loc i).busyWith = some p) :
    c.shared.owners p = {.busy i} := by
  have hx : .busy i ∈ c.shared.owners p := by
    rw [← Multiset.count_pos, (h.thread i).busy, if_pos hl]
    exact Nat.one_pos
  exact (h.object_of_mem hx).2.2.busy i hx

/-- The thread may act on the object: it is a caller that owns a reference, it allocates or frees the
    object, or after the handshake it owns the reference of the thread, or one that is lost keeps the object. -/
def MayAct (s : UThreads ι) (i : ι) (p : ppointer) : Prop :=
  .caller i ∈ s.owners p ∨ .busy i ∈ s.owners p ∨ (.self i ∈ s.owners p ∨ .lost ∈ s.owners p) ∧ s.given p ≠ none

theorem UThreadInv.owners_creates (h : UThreadInv c) (hl : (c.loc i).creates = some p) :
    c.shared.owners p = {.busy i} ∨ c.shared.given p = none ∧ ∃ k, c.shared.owners p = {.self k, .caller i} := by
  have hbusy := h.owners_busy (i := i) (p := p)
  have hknows := (h.thread i).knows
  cases hloc : c.loc i <;> rw [hloc] at hl hbusy hknows <;> cases hl
  case createStore => exact .inr ⟨hknows.1, hknows.2.1⟩
  all_goals exact .inl (hbusy rfl)

/-- No other thread is creating the object. -/
theorem UThreadInv.not_creating (h : UThreadInv c) (hact : MayAct c.shared i p) (hj : j ≠ i) :
    (c.loc j).creates ≠ some p := by
  intro hcreates
  rcases h.owners_creates hcreates with howners | ⟨hnone, k, howners⟩ <;> rw [MayAct, howners] at hact <;>
    simp only [Multiset.insert_eq_cons, Multiset.mem_cons, Multiset.mem_singleton, reduceCtorEq,
      Owner.caller.injEq, Owner.busy.injEq, false_or, or_false, false_and] at hact
  · exact hj hact.symm
  · rcases hact with hji | ⟨-, hgiven⟩
    · exact hj hji.symm
    · exact hgiven hnone

/-- A step that happens to an object on which the thread may act. -/
theorem UThreadInv.change (h : UThreadInv c) (hact : MayAct c.shared i p)
    (hsame : ∀ q, q ≠ p → SameObject c.shared s q) (hnext : s.nextObject = c.shared.nextObject)
    (hslot : s.pp_uthread_specific_data = c.shared.pp_uthread_specific_data) (hborn : c.shared.started i ≠ none)
    (hstarted : s.started = c.shared.started) (hobject : ObjectOk s p)
    (hgiven : c.shared.given p ≠ none → s.given p ≠ none)
    (hself : ∀ j, j ≠ i → (s.owners p).count (.self j) = (c.shared.owners p).count (.self j))
    (hbusy : ∀ j, j ≠ i → (s.owners p).count (.busy j) = (c.shared.owners p).count (.busy j))
    (hiself : ∀ q, q ≠ NULL → q ≠ p → (q = selfOf s i l ↔ q = selfOf c.shared i (c.loc i)))
    (hiselfp : (s.owners p).count (.self i) = if p = selfOf s i l then 1 else 0)
    (hibusy : ∀ q, q ≠ p → (l.busyWith = some q ↔ (c.loc i).busyWith = some q))
    (hibusyp : (s.owners p).count (.busy i) = if l.busyWith = some p then 1 else 0)
    (hcreates : ∀ q, (c.loc i).creates = some q → l.creates = some q ∨ s.owners q = 0 ∨ s.given q ≠ none)
    (hspin : SpinMove c i s l) (hknows : l.Knows s i) (hcalled : ∀ x ∈ s.called, x.2 = some x.1) :
    UThreadInv (c.set i s l) := by
  obtain ⟨x, hx⟩ : ∃ x, x ∈ c.shared.owners p := by
    rcases hact with hx | hx | ⟨hx | hx, -⟩ <;> exact ⟨_, hx⟩
  obtain ⟨hnull, hlt, -⟩ := h.object_of_mem hx
  have hi := h.thread i
  have hcount : ∀ {y : Owner ι}, (s.owners p).count y = (c.shared.owners p).count y →
      ∀ q, (s.owners q).count y = (c.shared.owners q).count y := by
    intro y hy q
    by_cases hq : q = p
    · rw [hq, hy]
    · rw [(hsame q hq).owners]
  refine h.set p hsame (Nat.le_of_eq hnext.symm) (fun q hq _ => hnext ▸ hq) (.inr ⟨hnull, hnext ▸ hlt, hobject⟩)
    hcreates (fun h0 => ?_) (fun hnone => ?_) ⟨fun q => ?_, fun q => ?_, hspin.self h, hknows⟩ (fun j hj => ?_)
    hborn (fun j => by rw [hstarted]; exact id) hcalled
  · rw [h0] at hx
    exact absurd hx (Multiset.notMem_zero x)
  · exact Classical.not_not.1 fun hsome => hgiven hsome hnone
  · by_cases hq : q = p
    · rw [hq, hiselfp]
      exact if_congr (and_iff_right hnull).symm rfl rfl
    · rw [(hsame q hq).owners, hi.self]
      exact if_congr (and_congr_right fun hqnull => (hiself q hqnull hq).symm) rfl rfl
  · by_cases hq : q = p
    · rw [hq, hibusyp]
    · rw [(hsame q hq).owners, hi.busy]
      exact if_congr (hibusy q hq).symm rfl rfl
  · refine (h.thread j).other (hcount (hself j hj)) (hcount (hbusy j hj)) (hspin.other h hj) (by rw [hslot])
      (by rw [hstarted]) (fun q hq => ?_) fun q hq => hsame q fun hqp => h.not_creating hact hj (hqp ▸ hq)
    by_cases hqp : q = p
    · subst hqp
      exact hgiven hq
    · exact (hsame q hqp).given ▸ hq

/-- The thread allocates an object. -/
theorem UThreadInv.malloc (h : UThreadInv c) (hborn : c.shared.started i ≠ none) (joinable : Bool)
    (hself : selfOf (c.shared.malloc i joinable) i l = selfOf c.shared i (c.loc i))
    (hbusy : (c.loc i).busyWith = none) (hl : l.busyWith = some c.shared.nextObject)
    (hcreates : (c.loc i).creates = none) (hl' : l.creates = some c.shared.nextObject)
    (hlocked : l.locked = (c.loc i).locked) (hknows : l.Knows (c.shared.malloc i joinable) i) :
    UThreadInv (c.set i (c.shared.malloc i joinable) l) := by
  obtain ⟨howners, hfrees, hgiven⟩ := h.fresh c.shared.nextObject (.inr (Nat.le_refl _))
  have hi := h.thread i
  have hself0 : ∀ j, c.shared.nextObject ≠ NULL ∧ c.shared.nextObject = selfOf c.shared j (c.loc j) → False := by
    intro j hj
    have hmem := (h.thread j).mem_self hj.1 hj.2
    rw [howners] at hmem
    exact absurd hmem (Multiset.notMem_zero _)
  have hspin : SpinMove c i (c.shared.malloc i joinable) l := .inl ⟨rfl, hlocked⟩
  refine h.set c.shared.nextObject (fun q hq => sameObject_malloc hq) (Nat.le_succ _)
    (fun q hq hne => Nat.lt_of_le_of_ne (Nat.le_of_lt_succ hq) hne)
    (.inr ⟨Nat.ne_of_gt h.next_pos, Nat.lt_succ_self _, ?_, ?_, ?_, ?_, ?_⟩) (fun q hq => ?_) (fun _ _ _ => hl')
    (fun _ => hgiven) ⟨fun q => ?_, fun q => ?_, hspin.self h, hknows⟩ (fun j hj => ?_) hborn
    (fun _ => id) h.called
  · rw [owners_malloc, if_neg (Multiset.singleton_ne_zero _)]
    exact hfrees
  · rw [owners_malloc]
    exact Nat.one_lt_two_pow (by decide)
  · intro j hj
    rw [owners_malloc] at hj ⊢
    cases Multiset.mem_singleton.1 hj
    rfl
  · intro func data hsome
    cases hsome.symm.trans hgiven
  · exact fun hsome => absurd hgiven hsome
  · rw [hcreates] at hq
    cases hq
  · by_cases hq : q = c.shared.nextObject
    · subst hq
      rw [owners_malloc, hself, if_neg (hself0 i), Multiset.count_singleton, if_neg nofun]
    · rw [(sameObject_malloc hq).owners, hself, hi.self]
  · by_cases hq : q = c.shared.nextObject
    · subst hq
      rw [owners_malloc, if_pos hl, Multiset.count_singleton_self]
    · rw [(sameObject_malloc hq).owners, hi.busy, hbusy, hl, if_neg nofun,
        if_neg fun heq => hq (Option.some.inj heq).symm]
  · have hcount : ∀ {y : Owner ι}, y ≠ .busy i →
        ∀ q, ((c.shared.malloc i joinable).owners q).count y = (c.shared.owners q).count y := by
      intro y hy q
      by_cases hq : q = c.shared.nextObject
      · subst hq
        rw [owners_malloc, howners, Multiset.count_singleton, if_neg hy, Multiset.count_zero]
      · rw [(sameObject_malloc hq).owners]
    refine (h.thread j).other (hcount nofun) (hcount ?_) (hspin.other h hj) rfl rfl (fun _ => id) fun q hq => ?_
    · rintro ⟨⟩
      exact hj rfl
    · refine sameObject_malloc fun hnext => ?_
      subst hnext
      rcases h.owners_creates hq with hbusy | ⟨-, k, hstore⟩
      · exact Multiset.singleton_ne_zero _ (hbusy.symm.trans howners)
      · exact Multiset.cons_ne_zero (hstore.symm.trans howners)

/-- `pthread_create` starts a thread that did not exist; it owns one reference, the creator the other. -/
theorem UThreadInv.start {func data : ppointer} {joinable : Bool} (h : UThreadInv c)
    (hl : c.loc i = .createThread p func data joinable) (hborn : c.shared.started i ≠ none)
    (hk : c.shared.started k = none) :
    UThreadInv (c.set i (c.shared.start i k p) (.createStore p func data (createFields func data joinable))) := by
  have hi := h.thread i
  have hthread := h.thread k
  rw [hl] at hi
  rw [h.born k hk] at hthread
  have howners : c.shared.owners p = {.busy i} := h.owners_busy (hl ▸ rfl)
  have hmem : .busy i ∈ c.shared.owners p := howners ▸ Multiset.mem_singleton_self _
  obtain ⟨hnull, hlt, hobject⟩ := h.object_of_mem hmem
  have hact : MayAct c.shared i p := .inr (.inl hmem)
  have hki : k ≠ i := by
    rintro rfl
    exact hborn hk
  have hnew : (c.shared.start i k p).owners p = .self k ::ₘ {.caller i} := owners_setOwners
  have hsame : ∀ q, q ≠ p → SameObject c.shared (c.shared.start i k p) q := fun q hq =>
    ⟨Function.update_of_ne hq .., rfl, rfl, rfl⟩
  have hstarted : ∀ j, j ≠ k → (c.shared.start i k p).started j = c.shared.started j := fun j hj =>
    Function.update_of_ne hj ..
  have hstartedk : (c.shared.start i k p).started k = some p := Function.update_self ..
  have hspin : SpinMove c i (c.shared.start i k p) (.createStore p func data (createFields func data joinable)) :=
    .inl ⟨rfl, hl ▸ rfl⟩
  -- nobody but the new thread and the creator has a reference
  have hcount : ∀ {y : Owner ι}, y ≠ .self k → y ≠ .caller i → y ≠ .busy i →
      ∀ q, ((c.shared.start i k p).owners q).count y = (c.shared.owners q).count y := by
    intro y hself hcaller hbusy q
    by_cases hq : q = p
    · subst hq
      rw [hnew, howners, Multiset.count_cons_of_ne hself, Multiset.count_singleton, Multiset.count_singleton,
        if_neg hcaller, if_neg hbusy]
    · rw [(hsame q hq).owners]
  refine h.set p hsame (Nat.le_refl _) (fun q hq _ => hq) (.inr ⟨hnull, hlt, ?_, ?_, ?_, ?_, ?_⟩)
    (fun q hq => .inl ?_)
    (fun h0 => ?_) (fun _ => hi.knows.1) ⟨fun q => ?_, fun q => ?_, hspin.self h, ?_⟩ (fun j hj => ?_) hborn
    (fun j hj => ?_) h.called
  · rw [hnew, if_neg Multiset.cons_ne_zero]
    exact h.frees_of_mem hmem
  · rw [hnew, Multiset.card_cons, Multiset.card_singleton]
    decide
  · intro j hj
    rw [hnew, Multiset.mem_cons, Multiset.mem_singleton] at hj
    rcases hj with hj | hj <;> cases hj
  · intro func' data' hsome
    cases hsome.symm.trans hi.knows.1
  · exact fun hsome => absurd hi.knows.1 hsome
  · rw [hl] at hq
    exact hq
  · rw [h0] at hmem
    exact absurd hmem (Multiset.notMem_zero _)
  · rw [hcount (fun heq => hki (Owner.self.inj heq).symm) (by nofun) (by nofun), hi.self]
    rfl
  · by_cases hq : q = p
    · subst hq
      rw [hnew, Multiset.count_cons_of_ne (by nofun), Multiset.count_singleton, if_neg (by nofun)]
      rfl
    · rw [(hsame q hq).owners, hi.busy]
      exact (if_neg fun heq => hq (Option.some.inj heq).symm).trans (if_neg (Option.some_ne_none q).symm).symm
  · exact ⟨hi.knows.1, ⟨k, hnew⟩, ⟨rfl, rfl, rfl⟩, hi.knows.2⟩
  · by_cases hjk : j = k
    · subst hjk
      rw [h.born j hk]
      refine ⟨fun q => ?_, fun q => ?_, (hspin.other h hj).trans hthread.spin, hthread.knows.1, ?_⟩
      · rw [selfOf, hstartedk]
        by_cases hq : q = p
        · subst hq
          rw [hnew, Multiset.count_cons_self, Multiset.count_singleton, if_neg (by nofun), if_pos ⟨hnull, rfl⟩]
        · rw [(hsame q hq).owners, hthread.self, selfOf, hk]
          exact (if_neg fun hself => hself.1 hself.2).trans (if_neg fun hself => hq hself.2).symm
      · rw [hcount (by nofun) (by nofun) (fun heq => hj (Owner.busy.inj heq)), hthread.busy]
      · rw [hstartedk]
        exact fun hsome => hnull (Option.some.inj hsome)
    · exact (h.thread j).other (hcount (fun heq => hjk (Owner.self.inj heq)) (by nofun) (by nofun))
        (hcount (by nofun) (by nofun) fun heq => hj (Owner.busy.inj heq)) (hspin.other h hj) rfl
        (hstarted j hjk) (fun _ => id) fun q hq => hsame q fun hqp => h.not_creating hact hj (hqp ▸ hq)
  · by_cases hjk : j = k
    · exact hjk ▸ hk
    · rwa [hstarted j hjk] at hj

/-! ## What happens to an object -/

theorem refCount_succ (n : ℕ) : Int32.ofNat (n + 1) = Int32.ofNat n + 1 := Int32.ofNat_add n 1

theorem refCount_eq_one {n : ℕ} (h : n < 2 ^ 32) : Int32.ofNat n = 1 ↔ n = 1 := by
  refine ⟨fun heq => ?_, fun heq => heq ▸ rfl⟩
  have hvalue := congrArg (fun a => a.toBitVec.toNat) heq
  simp only [Int32.toBitVec_ofNat'] at hvalue
  rw [BitVec.toNat_ofNat, Nat.mod_eq_of_lt h] at hvalue
  exact hvalue

namespace ObjectOk

theorem no_busy (h : ObjectOk s p) (hx : x ∈ s.owners p) (hne : ∀ j, x ≠ .busy j) (j : ι) :
    .busy j ∉ s.owners p := by
  intro hj
  rw [h.busy j hj, Multiset.mem_singleton] at hx
  exact hne j hx

/-- The counter is 1 when the last reference is given back. -/
theorem last_iff (h : ObjectOk s p) (hgiven : s.given p ≠ none) (hx : x ∈ s.owners p) (hne : ∀ j, x ≠ .busy j) :
    (s.objects p).ref_count = 1 ↔ s.owners p = {x} := by
  rw [h.count hgiven (owners_ne_zero hx) (h.no_busy hx hne), refCount_eq_one h.few, Multiset.card_eq_one]
  refine ⟨?_, fun heq => ⟨x, heq⟩⟩
  rintro ⟨y, hy⟩
  rw [hy, Multiset.mem_singleton] at hx
  rw [hy, hx]

theorem free (h : ObjectOk s p) (howners : s.owners p = {.busy i}) : ObjectOk (s.free p) p := by
  have hnew : (s.free p).owners p = 0 := owners_setOwners
  refine ⟨?_, ?_, fun j hj => ?_, h.stored, fun _ hne => absurd hnew hne⟩
  · rw [frees_free, h.frees, howners, if_neg (Multiset.singleton_ne_zero _), hnew, if_pos rfl]
  · rw [hnew]
    exact Nat.two_pow_pos 32
  · rw [hnew] at hj
    exact absurd hj (Multiset.notMem_zero _)

theorem unref (h : ObjectOk s p) (hgiven : s.given p ≠ none) (hx : x ∈ s.owners p) (hne : ∀ j, x ≠ .busy j)
    (i : ι) :
    ObjectOk (s.unref i p x) p := by
  have hobject : (s.unref i p x).objects p = { s.objects p with ref_count := (s.objects p).ref_count - 1 } :=
    Function.update_self ..
  have hstored : ∀ func data, s.given p = some (func, data) →
      ((s.unref i p x).objects p).func = func ∧ ((s.unref i p x).objects p).data = data := by
    rw [hobject]
    exact h.stored
  have hfrees : s.frees p = 0 := by
    rw [h.frees, if_neg (owners_ne_zero hx)]
  by_cases hlast : (s.objects p).ref_count = 1
  · have hnew : (s.unref i p x).owners p = {.busy i} := owners_setOwners.trans (if_pos hlast)
    refine ⟨?_, ?_, fun j hj => ?_, hstored, fun _ _ hnone => ?_⟩
    · rw [hnew, if_neg (Multiset.singleton_ne_zero _)]
      exact hfrees
    · rw [hnew]
      exact Nat.one_lt_two_pow (by decide)
    · rw [hnew] at hj ⊢
      cases Multiset.mem_singleton.1 hj
      rfl
    · refine absurd ?_ (hnone i)
      rw [hnew]
      exact Multiset.mem_singleton_self _
  · have hnew : (s.unref i p x).owners p = (s.owners p).erase x := owners_setOwners.trans (if_neg hlast)
    have hcons : x ::ₘ (s.owners p).erase x = s.owners p := Multiset.cons_erase hx
    have hcard : Multiset.card ((s.owners p).erase x) + 1 = Multiset.card (s.owners p) :=
      Multiset.card_erase_add_one hx
    refine ⟨?_, ?_, fun j hj => ?_, hstored, fun _ _ _ => ?_⟩
    · rw [hnew, if_neg]
      · exact hfrees
      · intro h0
        rw [h0] at hcons
        exact hlast ((h.last_iff hgiven hx hne).2 hcons.symm)
    · rw [hnew]
      exact Nat.lt_of_succ_lt (Nat.lt_of_le_of_lt (Nat.le_of_eq hcard) h.few)
    · rw [hnew] at hj
      exact absurd (Multiset.mem_of_mem_erase hj) (h.no_busy hx hne j)
    · rw [hobject, hnew]
      simp only
      rw [h.count hgiven (owners_ne_zero hx) (h.no_busy hx hne), ← hcard, refCount_succ, Int32.add_sub_cancel]

theorem ref (h : ObjectOk s p) (hgiven : s.given p ≠ none) (hx : x ∈ s.owners p) (hne : ∀ j, x ≠ .busy j)
    (hfew : Multiset.card (s.owners p) + 1 < 2 ^ 32) (i : ι) : ObjectOk (s.ref i p) p := by
  have hobject : (s.ref i p).objects p = { s.objects p with ref_count := (s.objects p).ref_count + 1 } :=
    Function.update_self ..
  have hnew : (s.ref i p).owners p = .caller i ::ₘ s.owners p := owners_setOwners
  refine ⟨?_, ?_, fun j hj => ?_, ?_, fun _ _ _ => ?_⟩
  · rw [hnew, if_neg Multiset.cons_ne_zero]
    exact h.frees.trans (if_neg (owners_ne_zero hx))
  · rw [hnew, Multiset.card_cons]
    exact hfew
  · rw [hnew, Multiset.mem_cons] at hj
    rcases hj with hj | hj
    · cases hj
    · exact absurd hj (h.no_busy hx hne j)
  · rw [hobject]
    exact h.stored
  · rw [hobject, hnew, Multiset.card_cons, refCount_succ]
    simp only
    rw [h.count hgiven (owners_ne_zero hx) (h.no_busy hx hne)]

/-- A reference passes to another owner. -/
theorem pass {y : Owner ι} (h : ObjectOk s p) (hx : x ∈ s.owners p) (hne : ∀ j, x ≠ .busy j)
    (hne' : ∀ j, y ≠ .busy j) : ObjectOk (s.setOwners p (y ::ₘ (s.owners p).erase x)) p := by
  have hcard : Multiset.card (y ::ₘ (s.owners p).erase x) = Multiset.card (s.owners p) := by
    rw [Multiset.card_cons]
    exact Multiset.card_erase_add_one hx
  refine ⟨?_, ?_, fun k hk => ?_, h.stored, fun hgiven _ _ => ?_⟩
  · rw [owners_setOwners, if_neg Multiset.cons_ne_zero]
    exact h.frees.trans (if_neg (owners_ne_zero hx))
  · rw [owners_setOwners, hcard]
    exact h.few
  · rw [owners_setOwners, Multiset.mem_cons] at hk
    rcases hk with hk | hk
    · exact absurd hk.symm (hne' k)
    · exact absurd (Multiset.mem_of_mem_erase hk) (h.no_busy hx hne k)
  · rw [owners_setOwners, hcard]
    exact h.count hgiven (owners_ne_zero hx) (h.no_busy hx hne)

theorem publish {func data : ppointer} (h : ObjectOk s p) (hfunc : (s.objects p).func = func)
    (hdata : (s.objects p).data = data)
    (hcount : (s.objects p).ref_count = Int32.ofNat (Multiset.card (s.owners p))) :
    ObjectOk (s.publish p func data) p := by
  refine ⟨h.frees, h.few, h.busy, fun func' data' hsome => ?_, fun _ _ _ => hcount⟩
  rw [given_publish] at hsome
  cases hsome
  exact ⟨hfunc, hdata⟩

theorem countOne (h : ObjectOk s p) (hbusy : .busy i ∈ s.owners p) (hfunc : (s.objects p).func = NULL)
    (hdata : (s.objects p).data = NULL) :
    ObjectOk (((s.modify p fun o => { o with ref_count := 1 }).setOwners p {.self i}).publish p NULL NULL) p := by
  have hobject : ((s.modify p fun o => { o with ref_count := 1 }).setOwners p {.self i}).objects p =
      { s.objects p with ref_count := 1 } := Function.update_self ..
  have hok : ObjectOk ((s.modify p fun o => { o with ref_count := 1 }).setOwners p {.self i}) p := by
    refine ⟨?_, ?_, fun j hj => ?_, ?_, fun _ _ _ => ?_⟩
    · rw [owners_setOwners, if_neg (Multiset.singleton_ne_zero _)]
      exact h.frees.trans (if_neg (owners_ne_zero hbusy))
    · rw [owners_setOwners]
      exact Nat.one_lt_two_pow (by decide)
    · rw [owners_setOwners, Multiset.mem_singleton] at hj
      cases hj
    · rw [hobject]
      exact h.stored
    · rw [hobject, owners_setOwners]
      rfl
  refine hok.publish ?_ ?_ ?_
  · rw [hobject]
    exact hfunc
  · rw [hobject]
    exact hdata
  · rw [hobject, owners_setOwners]
    rfl

end ObjectOk

/-! ## Every step -/

theorem UThreadInv.given_of_caller (h : UThreadInv c) (hx : .caller i ∈ c.shared.owners p)
    (hl : (c.loc i).creates = none) : c.shared.given p ≠ none := by
  intro hnone
  obtain ⟨j, hj⟩ := h.creating p (owners_ne_zero hx) hnone
  rcases h.owners_creates hj with howners | ⟨-, k, howners⟩
  · rw [howners, Multiset.mem_singleton] at hx
    cases hx
  · rw [howners, Multiset.insert_eq_cons, Multiset.mem_cons, Multiset.mem_singleton] at hx
    rcases hx with hx | hx
    · cases hx
    · cases hx
      rw [hj] at hl
      cases hl

/-- When the spinlock is free, no object waits for its counter. -/
theorem UThreadInv.given_of_self (h : UThreadInv c) (hx : .self i ∈ c.shared.owners p)
    (hspin : c.shared.pp_uthread_new_spin = none) : c.shared.given p ≠ none := by
  intro hnone
  obtain ⟨j, hj⟩ := h.creating p (owners_ne_zero hx) hnone
  have hbusy := h.owners_busy (i := j) (p := p)
  have hlocked := (h.thread j).spin
  rw [hspin] at hlocked
  cases hl : c.loc j <;> rw [hl] at hj hbusy hlocked <;> cases hj
  case createStore => cases hlocked.2 rfl
  all_goals
    rw [hbusy rfl, Multiset.mem_singleton] at hx
    cases hx

/-- Fewer than 2^32 references to an object are owned at once. -/
def Counted (c : Config ι (UThreads ι) UThreadPlace) (x : ι × UThreadChoice ι) : Prop :=
  ∀ p ∈ x.2.refs, Multiset.card (c.shared.owners p) + 1 < 2 ^ 32

instance (c : Config ι (UThreads ι) UThreadPlace) (x : ι × UThreadChoice ι) : Decidable (Counted c x) :=
  inferInstanceAs (Decidable (∀ p ∈ x.2.refs, _))

/-- A lost reference has had its counter stored. -/
theorem UThreadInv.given_of_lost (h : UThreadInv c) (hx : .lost ∈ c.shared.owners p) :
    c.shared.given p ≠ none := by
  intro hnone
  obtain ⟨j, hj⟩ := h.creating p (owners_ne_zero hx) hnone
  rcases h.owners_creates hj with howners | ⟨-, k, howners⟩
  · rw [howners, Multiset.mem_singleton] at hx
    cases hx
  · rw [howners, Multiset.insert_eq_cons, Multiset.mem_cons, Multiset.mem_singleton] at hx
    rcases hx with hx | hx <;> cases hx

theorem step_started {spin : Bool} (h : UThreadInv c)
    (hstep : uthreadStep spin i choice c.shared (c.loc i) = some (s, l)) :
    c.shared.started i ≠ none := by
  intro hnone
  rw [h.born i hnone, uthreadStep, hnone] at hstep
  cases hstep

/-- The thread gives back a reference. -/
theorem UThreadInv.unref (h : UThreadInv c) (hx : x ∈ c.shared.owners p) (hi : x = .caller i ∨ x = .self i)
    (hgiven : c.shared.given p ≠ none) (hborn : c.shared.started i ≠ none)
    (hself : ∀ q, q ≠ NULL → q ≠ p →
      (q = selfOf (c.shared.unref i p x) i l ↔ q = selfOf c.shared i (c.loc i)))
    (hselfp : x = .self i → p ≠ selfOf (c.shared.unref i p x) i l)
    (hselfp' : x = .caller i → (p = selfOf (c.shared.unref i p x) i l ↔ p = selfOf c.shared i (c.loc i)))
    (hbusy : (c.loc i).busyWith = none)
    (hl : l.busyWith = if (c.shared.objects p).ref_count = 1 then some p else none)
    (hcreates : (c.loc i).creates = none)
    (hspin : l.locked = (c.loc i).locked) (hknows : l.Knows (c.shared.unref i p x) i) :
    UThreadInv (c.set i (c.shared.unref i p x) l) := by
  have hne : ∀ j, x ≠ .busy j := by
    rintro j rfl
    rcases hi with hi | hi <;> cases hi
  obtain ⟨hnull, -, hobject⟩ := h.object_of_mem hx
  have hact : MayAct c.shared i p := by
    rcases hi with rfl | rfl
    · exact .inl hx
    · exact .inr (.inr ⟨.inl hx, hgiven⟩)
  have hnew : (c.shared.unref i p x).owners p =
      if (c.shared.objects p).ref_count = 1 then {.busy i} else (c.shared.owners p).erase x := owners_setOwners
  have hlast := hobject.last_iff hgiven hx hne
  have hcount : ∀ {y : Owner ι}, y ≠ x → y ≠ .busy i →
      ((c.shared.unref i p x).owners p).count y = (c.shared.owners p).count y := by
    intro y hyx hy
    rw [hnew]
    split
    · rename_i hone
      rw [hlast.1 hone, Multiset.count_singleton, Multiset.count_singleton, if_neg hy, if_neg hyx]
    · exact Multiset.count_erase_of_ne hyx _
  have hself_le : (c.shared.owners p).count (.self i) = if p = selfOf c.shared i (c.loc i) then 1 else 0 := by
    rw [(h.thread i).self]
    exact if_congr (and_iff_right hnull) rfl rfl
  refine h.change hact (fun q hq => (sameObject_modify hq).trans (sameObject_setOwners hq)) rfl rfl hborn rfl
    (hobject.unref hgiven hx hne i) id (fun j hj => hcount ?_ (by nofun))
    (fun j hj => hcount (hne j).symm ?_) hself ?_
    (fun q hq => ?_) ?_ (fun q hq => ?_) (.inl ⟨rfl, hspin⟩) hknows h.called
  · rcases hi with rfl | rfl
    · nofun
    · exact fun heq => hj (Owner.self.inj heq)
  · exact fun heq => hj (Owner.busy.inj heq)
  · rcases hi with rfl | rfl
    · rw [hcount (by nofun) (by nofun), hself_le]
      exact if_congr (hselfp' rfl).symm rfl rfl
    · rw [if_neg (hselfp rfl), hnew]
      split
      · exact Multiset.count_singleton .. |>.trans (if_neg nofun)
      · rw [Multiset.count_erase_self, hself_le]
        split <;> rfl
  · rw [hl, hbusy]
    split
    · exact ⟨fun heq => absurd (Option.some.inj heq).symm hq, nofun⟩
    · exact Iff.rfl
  · rw [hl, hnew]
    split
    · rw [Multiset.count_singleton_self, if_pos rfl]
    · rw [if_neg nofun, Multiset.count_eq_zero]
      exact fun hmem => hobject.no_busy hx hne i (Multiset.mem_of_mem_erase hmem)
  · rw [hcreates] at hq
    cases hq

theorem UThreadInv.free (h : UThreadInv c) (hborn : c.shared.started i ≠ none)
    (hbusy : (c.loc i).busyWith = some p)
    (hself : selfOf (c.shared.free p) i l = selfOf c.shared i (c.loc i)) (hl : l.busyWith = none)
    (hspin : l.locked = (c.loc i).locked) (hknows : l.Knows (c.shared.free p) i) :
    UThreadInv (c.set i (c.shared.free p) l) := by
  have howners := h.owners_busy hbusy
  have hmem : .busy i ∈ c.shared.owners p := howners ▸ Multiset.mem_singleton_self _
  have hnew : (c.shared.free p).owners p = 0 := owners_setOwners
  have hi : p ≠ selfOf c.shared i (c.loc i) := by
    intro hp
    have hself := (h.thread i).mem_self (h.object_of_mem hmem).1 hp
    rw [howners, Multiset.mem_singleton] at hself
    cases hself
  refine h.change (.inr (.inl hmem)) (fun q hq => sameObject_free hq) rfl rfl hborn rfl
    ((h.object_of_mem hmem).2.2.free howners) id (fun j hj => ?_) (fun j hj => ?_) (fun q _ _ => by rw [hself]) ?_
    (fun q hq => ?_) ?_ (fun q hq => ?_) (.inl ⟨rfl, hspin⟩) hknows h.called
  · rw [hnew, howners, Multiset.count_singleton, if_neg (by nofun), Multiset.count_zero]
  · rw [hnew, howners, Multiset.count_singleton, if_neg fun heq => hj (Owner.busy.inj heq), Multiset.count_zero]
  · rw [hnew, hself, if_neg hi, Multiset.count_zero]
  · rw [hl, hbusy]
    exact ⟨nofun, fun heq => absurd (Option.some.inj heq).symm hq⟩
  · rw [hnew, hl, if_neg nofun, Multiset.count_zero]
  · refine .inr (.inl ?_)
    cases hloc : c.loc i <;> rw [hloc] at hq hbusy <;> cases hq <;> cases hbusy <;> exact hnew

/-- The thread takes another reference to an object that a reference keeps. -/
theorem UThreadInv.ref (h : UThreadInv c) (hl : c.loc i = .running) (hborn : c.shared.started i ≠ none)
    (hact : MayAct c.shared i p) (hx : x ∈ c.shared.owners p) (hne : ∀ j, x ≠ .busy j)
    (hgiven : c.shared.given p ≠ none) (hfew : Multiset.card (c.shared.owners p) + 1 < 2 ^ 32) :
    UThreadInv (c.set i (c.shared.ref i p) .running) := by
  have hi := h.thread i
  rw [hl] at hi
  have hnot : ∀ {y : Owner ι}, y ≠ .caller i →
      ((c.shared.ref i p).owners p).count y = (c.shared.owners p).count y := by
    intro y hy
    rw [UThreads.ref, owners_setOwners, Multiset.count_cons_of_ne hy]
  obtain ⟨hnull, -, hobject⟩ := h.object_of_mem hx
  refine h.change hact (fun q hq => (sameObject_modify hq).trans (sameObject_setOwners hq)) rfl rfl hborn rfl
    (hobject.ref hgiven hx hne hfew i) id (fun j _ => hnot (by nofun)) (fun j _ => hnot (by nofun))
    (fun q _ _ => by rw [hl]; rfl) ?_ (fun q _ => by rw [hl]) ?_ (fun q hq => ?_)
    (.inl ⟨rfl, hl ▸ rfl⟩) hi.knows h.called
  · rw [hnot (by nofun), hi.self]
    exact if_congr (and_iff_right hnull) rfl rfl
  · rw [hnot (by nofun), hi.busy]
  · rw [hl] at hq
    cases hq

/-- A caller passes a reference on to another one. -/
theorem UThreadInv.give (h : UThreadInv c) (hl : c.loc i = .running) (hborn : c.shared.started i ≠ none)
    (hx : .caller i ∈ c.shared.owners p) (j : ι) :
    UThreadInv (c.set i (c.shared.setOwners p (.caller j ::ₘ (c.shared.owners p).erase (.caller i))) .running) := by
  have hi := h.thread i
  rw [hl] at hi
  have hnot : ∀ {y : Owner ι}, y ≠ .caller i → y ≠ .caller j →
      ((c.shared.setOwners p (.caller j ::ₘ (c.shared.owners p).erase (.caller i))).owners p).count y =
        (c.shared.owners p).count y := by
    intro y hy hy'
    rw [owners_setOwners, Multiset.count_cons_of_ne hy', Multiset.count_erase_of_ne hy]
  obtain ⟨hnull, -, hobject⟩ := h.object_of_mem hx
  refine h.change (.inl hx) (fun q hq => sameObject_setOwners hq) rfl rfl hborn rfl
    (hobject.pass hx (by nofun) (by nofun)) id
    (fun k _ => hnot (by nofun) (by nofun)) (fun k _ => hnot (by nofun) (by nofun))
    (fun q _ _ => by rw [hl]; rfl) ?_
    (fun q _ => by rw [hl]) ?_ (fun q hq => ?_) (.inl ⟨rfl, hl ▸ rfl⟩) hi.knows h.called
  · rw [hnot (by nofun) (by nofun), hi.self]
    exact if_congr (and_iff_right hnull) rfl rfl
  · rw [hnot (by nofun) (by nofun), hi.busy]
  · rw [hl] at hq
    cases hq

/-- The thread goes on in code of its own, with an empty slot and without its reference. -/
theorem UThreadInv.lose (h : UThreadInv c) (hborn : c.shared.started i ≠ none) (hnull : p ≠ NULL)
    (hself : selfOf c.shared i (c.loc i) = p) (hslot : c.shared.pp_uthread_specific_data i = NULL)
    (hgiven : c.shared.given p ≠ none) (hbusy : (c.loc i).busyWith = none) (hcreates : (c.loc i).creates = none)
    (hlocked : (c.loc i).locked = false) {called : List ((ppointer × ppointer) × Option (ppointer × ppointer))}
    (hcalled : ∀ x ∈ called, x.2 = some x.1) :
    UThreadInv (c.set i { c.shared.lose i p with called := called } .running) := by
  have hi := h.thread i
  have hx : .self i ∈ c.shared.owners p := hi.mem_self hnull hself.symm
  have hobject := (h.object_of_mem hx).2.2
  have hnew : (c.shared.lose i p).owners p = .lost ::ₘ (c.shared.owners p).erase (.self i) := owners_setOwners
  have hnot : ∀ {y : Owner ι}, y ≠ .lost → y ≠ .self i →
      ((c.shared.lose i p).owners p).count y = (c.shared.owners p).count y := by
    intro y hy hy'
    rw [hnew, Multiset.count_cons_of_ne hy, Multiset.count_erase_of_ne hy']
  have hempty : selfOf { c.shared.lose i p with called := called } i .running = NULL := hslot
  have hone : (c.shared.owners p).count (.self i) = 1 := by
    rw [hi.self, if_pos ⟨hnull, hself.symm⟩]
  refine h.change (.inr (.inr ⟨.inl hx, hgiven⟩))
    (fun q hq => (sameObject_setOwners hq).trans ⟨rfl, rfl, rfl, rfl⟩) rfl rfl hborn rfl
    ((hobject.pass hx (by nofun) (by nofun)).same ⟨rfl, rfl, rfl, rfl⟩) id
    (fun j hj => hnot (by nofun) fun heq => hj (Owner.self.inj heq)) (fun j _ => hnot (by nofun) (by nofun))
    (fun q hq hqp => ?_) ?_ (fun q _ => by rw [hbusy]; rfl) ?_ (fun q hq => ?_) (.inl ⟨rfl, hlocked.symm⟩)
    (fun hne => absurd hslot hne) hcalled
  · rw [hempty, hself]
    exact ⟨fun heq => absurd heq hq, fun heq => absurd heq hqp⟩
  · rw [hempty, if_neg hnull]
    refine (congrArg (Multiset.count _) hnew).trans ?_
    rw [Multiset.count_cons_of_ne (by nofun), Multiset.count_erase_self, hone]
  · refine (hnot (by nofun) (by nofun)).trans ?_
    rw [hi.busy, hbusy]
    rfl
  · rw [hcreates] at hq
    cases hq

/-- The thread takes the spinlock. -/
theorem UThreadInv.lock (h : UThreadInv c) (hborn : c.shared.started i ≠ none)
    (hlock : c.shared.lock true i = some s) (hself : selfOf c.shared i l = selfOf c.shared i (c.loc i))
    (hbusy : l.busyWith = (c.loc i).busyWith) (hcreates : (c.loc i).creates = none) (hl : l.locked = true)
    (hknows : c.shared.pp_uthread_new_spin = none → l.Knows s i) : UThreadInv (c.set i s l) := by
  rw [UThreads.lock, if_neg (by decide)] at hlock
  split at hlock
  · rename_i hfree
    cases hlock
    have hsame : selfOf { c.shared with pp_uthread_new_spin := some i } i l = selfOf c.shared i l := by
      cases l <;> rfl
    exact h.quiet (fun _ => ⟨rfl, rfl, rfl, rfl⟩) rfl (fun _ _ => rfl) hborn rfl (hsame.trans hself) hbusy
      (.inl hcreates) (.inr (.inl ⟨hfree, rfl, hl⟩)) (hknows hfree) h.called
  · cases hlock

/-- The creator stores the fields one by one, and gives the spinlock back. -/
theorem UThreadInv.store {func data : ppointer} {fields : List (PUThreadBase → PUThreadBase)} (h : UThreadInv c)
    (hl : c.loc i = .createStore p func data fields) (hborn : c.shared.started i ≠ none)
    (hstep : uthreadStep true i choice c.shared (.createStore p func data fields) = some (s, l)) :
    UThreadInv (c.set i s l) := by
  have hi := h.thread i
  rw [hl] at hi
  obtain ⟨hnone, ⟨k, howners⟩, hfields, hslot⟩ := hi.knows
  have hmem : .caller i ∈ c.shared.owners p := by
    rw [howners]
    exact Multiset.mem_cons_of_mem (Multiset.mem_singleton_self _)
  obtain ⟨hnull, -, hobject⟩ := h.object_of_mem hmem
  have hself : (c.shared.owners p).count (.self i) = if p = c.shared.pp_uthread_specific_data i then 1 else 0 :=
    (hi.self p).trans (if_congr (and_iff_right hnull) rfl rfl)
  cases fields with
  | nil =>
    cases hstep
    have hcount : (c.shared.objects p).ref_count = Int32.ofNat (Multiset.card (c.shared.owners p)) := by
      rw [howners]
      exact hfields.1
    have hok : ObjectOk (c.shared.publish p func data) p := hobject.publish hfields.2.1 hfields.2.2 hcount
    refine h.change (.inl hmem)
      (fun q hq => (sameObject_publish hq).trans ⟨rfl, rfl, rfl, rfl⟩) rfl rfl hborn rfl
      (hok.same ⟨rfl, rfl, rfl, rfl⟩) (fun hne => absurd hnone hne) (fun _ _ => rfl) (fun _ _ => rfl)
      (fun q _ _ => by rw [hl]; rfl) hself (fun q _ => by rw [hl]; rfl) (hi.busy p) (fun q hq => ?_)
      (.inr (.inr ⟨hl ▸ rfl, rfl, rfl⟩)) (fun hne => ?_) h.called
    · rw [hl] at hq
      cases hq
      exact .inr (.inr (given_publish.symm ▸ Option.some_ne_none _))
    · have hother : c.shared.pp_uthread_specific_data i ≠ p := fun heq => hslot hne (heq ▸ hnone)
      have hgiven : (c.shared.publish p func data).given (c.shared.pp_uthread_specific_data i) ≠ none := by
        rw [(sameObject_publish hother).given]
        exact hslot hne
      exact hgiven
  | cons field fields =>
    cases hstep
    have hnew : (c.shared.modify p field).objects p = field (c.shared.objects p) := Function.update_self ..
    refine h.change (.inl hmem) (fun q hq => sameObject_modify hq) rfl rfl hborn rfl
      ⟨hobject.frees, hobject.few, hobject.busy, fun func' data' hsome => ?_, fun hsome => absurd hnone hsome⟩ id
      (fun _ _ => rfl) (fun _ _ => rfl) (fun q _ _ => by rw [hl]; rfl) hself (fun q _ => by rw [hl]; rfl)
      (hi.busy p) (fun q hq => .inl ?_) (.inl ⟨rfl, hl ▸ rfl⟩) ⟨hnone, ⟨k, howners⟩, ?_, hslot⟩ h.called
    · cases hsome.symm.trans hnone
    · rw [hl] at hq
      exact hq
    · rw [hnew]
      exact hfields

/-- `p_uthread_current` stores the counter of its object: the reference is the thread's. -/
theorem UThreadInv.countOne (h : UThreadInv c) (hl : c.loc i = .currentCount p)
    (hborn : c.shared.started i ≠ none) :
    UThreadInv (c.set i (((c.shared.modify p fun o => { o with ref_count := 1 }).setOwners p {.self i}).publish p
      NULL NULL) (.currentSet p)) := by
  have hi := h.thread i
  rw [hl] at hi
  obtain ⟨hslot, hfunc, hdata⟩ := hi.knows
  have howners : c.shared.owners p = {.busy i} := h.owners_busy (hl ▸ rfl)
  have hmem : .busy i ∈ c.shared.owners p := howners ▸ Multiset.mem_singleton_self _
  obtain ⟨hnull, -, hobject⟩ := h.object_of_mem hmem
  -- one owner has taken the place of the other
  have hcount : ∀ y : Owner ι, ((((c.shared.modify p fun o => { o with ref_count := 1 }).setOwners p
      {.self i}).publish p NULL NULL).owners p).count y = if y = .self i then 1 else 0 := by
    intro y
    refine (congrArg (Multiset.count _) owners_setOwners).trans ?_
    rw [Multiset.count_singleton]
  have hbefore : ∀ y : Owner ι, (c.shared.owners p).count y = if y = .busy i then 1 else 0 := by
    intro y
    rw [howners, Multiset.count_singleton]
  refine h.change (.inr (.inl hmem)) (fun q hq =>
    ((sameObject_modify hq).trans (sameObject_setOwners hq)).trans (sameObject_publish hq)) rfl rfl hborn rfl
    (hobject.countOne hmem hfunc hdata) (fun _ => given_publish.symm ▸ Option.some_ne_none _) (fun j hj => ?_)
    (fun j hj => ?_) (fun q hqnull hqp => ?_) ?_ (fun q hqp => ?_) ?_ (fun q hq => ?_) (.inl ⟨rfl, hl ▸ rfl⟩)
    ⟨hslot, hnull, given_publish.symm ▸ Option.some_ne_none _⟩ h.called
  · rw [hcount, hbefore, if_neg fun heq => hj (Owner.self.inj heq), if_neg (by nofun)]
  · rw [hcount, hbefore, if_neg (by nofun), if_neg fun heq => hj (Owner.busy.inj heq)]
  · rw [hl]
    exact ⟨fun heq => absurd heq hqp, fun heq => absurd (heq.trans hslot) hqnull⟩
  · rw [hcount, if_pos rfl]
    exact (if_pos rfl).symm
  · rw [hl]
    exact ⟨nofun, fun heq => absurd (Option.some.inj heq).symm hqp⟩
  · rw [hcount, if_neg (by nofun)]
    rfl
  · rw [hl] at hq
    cases hq
    exact .inr (.inr (given_publish.symm ▸ Option.some_ne_none _))

/-- The destructor of the slot gives the reference of the thread back. -/
theorem UThreadInv.cleanup (h : UThreadInv c) (hl : c.loc i = .cleanup p) (hborn : c.shared.started i ≠ none)
    (hbusy : l.busyWith = if (c.shared.objects p).ref_count = 1 then some p else none) (hlocked : l.locked = false)
    (hself : selfOf (c.shared.unref i p (.self i)) i l = c.shared.pp_uthread_specific_data i)
    (hknows : c.shared.pp_uthread_specific_data i = NULL → l.Knows (c.shared.unref i p (.self i)) i) :
    UThreadInv (c.set i (c.shared.unref i p (.self i)) l) := by
  have hi := h.thread i
  rw [hl] at hi
  obtain ⟨hslot, hnull, hgiven⟩ := hi.knows
  have hx : .self i ∈ c.shared.owners p := hi.mem_self hnull rfl
  refine h.unref hx (.inr rfl) hgiven hborn (fun q hqnull hqp => ?_) (fun _ hp => ?_) nofun (hl ▸ rfl) hbusy
    (hl ▸ rfl)
    (hl ▸ hlocked) (hknows hslot)
  · rw [hself, hslot, hl]
    exact ⟨fun hq => absurd hq hqnull, fun hq => absurd hq hqp⟩
  · exact hnull (hp.trans (hself.trans hslot))

/-- The calls of a thread from code of its own. -/
theorem UThreadInv.call (h : UThreadInv c) (hl : c.loc i = .running) (hborn : c.shared.started i ≠ none)
    (hok : Counted c (i, choice)) (hcall : uthreadCall i c.shared choice = some (s, l)) :
    UThreadInv (c.set i s l) := by
  have hi := h.thread i
  rw [hl] at hi
  have hsame : ∀ q, SameObject c.shared c.shared q := fun q => ⟨rfl, rfl, rfl, rfl⟩
  cases choice with
  | create func data joinable =>
    cases hcall
    split
    all_goals
      exact h.quiet hsame rfl (fun _ _ => rfl) hborn rfl (hl ▸ rfl) (hl ▸ rfl) (.inl (hl ▸ rfl))
        (.inl ⟨rfl, hl ▸ rfl⟩) hi.knows h.called
  | current =>
    cases hcall
    split
    · rename_i hnull
      exact h.quiet hsame rfl (fun _ _ => rfl) hborn rfl (hl ▸ rfl) (hl ▸ rfl) (.inl (hl ▸ rfl))
        (.inl ⟨rfl, hl ▸ rfl⟩) hnull h.called
    · exact h.quiet hsame rfl (fun _ _ => rfl) hborn rfl (hl ▸ rfl) (hl ▸ rfl) (.inl (hl ▸ rfl))
        (.inl ⟨rfl, hl ▸ rfl⟩) hi.knows h.called
  | exit =>
    cases hcall
    exact h.quiet hsame rfl (fun _ _ => rfl) hborn rfl (hl ▸ rfl) (hl ▸ rfl) (.inl (hl ▸ rfl))
      (.inl ⟨rfl, hl ▸ rfl⟩) hi.knows h.called
  | ref p =>
    simp only [uthreadCall] at hcall
    split at hcall
    · rename_i howns
      cases hcall
      -- the reference that keeps the object
      rcases howns with hx | ⟨rfl, hnull⟩ | hx
      · exact h.ref hl hborn (.inl hx) hx (by nofun) (h.given_of_caller hx (hl ▸ rfl)) (hok p rfl)
      · have hx := hi.mem_self hnull rfl
        exact h.ref hl hborn (.inr (.inr ⟨.inl hx, hi.knows hnull⟩)) hx (by nofun) (hi.knows hnull) (hok _ rfl)
      · exact h.ref hl hborn (.inr (.inr ⟨.inr hx, h.given_of_lost hx⟩)) hx (by nofun) (h.given_of_lost hx)
          (hok p rfl)
    · cases hcall
  | unref p =>
    simp only [uthreadCall] at hcall
    split at hcall
    · rename_i hx
      cases hcall
      have hgiven := h.given_of_caller hx (hl ▸ rfl)
      by_cases hone : (c.shared.objects p).ref_count = 1
      · rw [if_pos hone]
        exact h.unref hx (.inl rfl) hgiven hborn (fun q _ _ => by rw [hl]; rfl) nofun (fun _ => by rw [hl]; rfl)
          (hl ▸ rfl) (if_pos hone).symm (hl ▸ rfl) (hl ▸ rfl) hi.knows
      · rw [if_neg hone]
        exact h.unref hx (.inl rfl) hgiven hborn (fun q _ _ => by rw [hl]; rfl) nofun (fun _ => by rw [hl]; rfl)
          (hl ▸ rfl) (if_neg hone).symm (hl ▸ rfl) (hl ▸ rfl) hi.knows
    · cases hcall
  | give p j =>
    simp only [uthreadCall] at hcall
    split at hcall
    · rename_i hx
      cases hcall
      exact h.give hl hborn hx j
    · cases hcall
  | start child => cases hcall
  | fail => cases hcall
  | proceed => cases hcall

/-- The steps of `p_uthread_create_full`. -/
theorem UThreadInv.create {func data : ppointer} {joinable : Bool} (h : UThreadInv c)
    (hborn : c.shared.started i ≠ none)
    (hl : c.loc i = .createMalloc func data joinable ∨ ∃ p, c.loc i = .createThread p func data joinable)
    (hstep : uthreadStep true i choice c.shared (c.loc i) = some (s, l)) : UThreadInv (c.set i s l) := by
  have hi := h.thread i
  have hsame : ∀ q, SameObject c.shared c.shared q := fun q => ⟨rfl, rfl, rfl, rfl⟩
  rcases hl with hl | ⟨p, hl⟩ <;> rw [hl] at hstep hi <;> simp only [uthreadStep] at hstep
  · split at hstep
    · cases hstep
      exact h.quiet hsame rfl (fun _ _ => rfl) hborn rfl (hl ▸ rfl) (hl ▸ rfl) (.inl (hl ▸ rfl))
        (.inl ⟨rfl, hl ▸ rfl⟩) hi.knows h.called
    · cases hstep
      exact h.malloc hborn joinable (hl ▸ rfl) (hl ▸ rfl) rfl (hl ▸ rfl) rfl (hl ▸ rfl)
        ⟨(h.fresh _ (.inr (Nat.le_refl _))).2.2, hi.knows⟩
  · split at hstep
    · cases hstep
      exact h.quiet hsame rfl (fun _ _ => rfl) hborn rfl (hl ▸ rfl) (hl ▸ rfl) (.inr (hl ▸ rfl))
        (.inl ⟨rfl, hl ▸ rfl⟩) hi.knows.2 h.called
    · split at hstep
      · rename_i hk
        cases hstep
        exact h.start hl hborn hk
      · cases hstep
    · cases hstep

/-- The steps of `pp_uthread_proxy`, up to the call of the function. -/
theorem UThreadInv.proxy (h : UThreadInv c) (hborn : c.shared.started i ≠ none)
    (hl : c.loc i = .proxySet p ∨ c.loc i = .proxyLock p ∨ c.loc i = .proxyUnlock p)
    (hstep : uthreadStep true i choice c.shared (c.loc i) = some (s, l)) : UThreadInv (c.set i s l) := by
  have hi := h.thread i
  rcases hl with hl | hl | hl <;> rw [hl] at hstep hi <;> simp only [uthreadStep] at hstep
  · split at hstep
    · cases hstep
      exact h.quiet (fun _ => ⟨rfl, rfl, rfl, rfl⟩) rfl (fun _ _ => rfl) hborn rfl (hl ▸ rfl) (hl ▸ rfl)
        (.inl (hl ▸ rfl)) (.inl ⟨rfl, hl ▸ rfl⟩) ⟨.inr hi.knows.1, hi.knows.2⟩ h.called
    · cases hstep
      exact h.quiet (fun _ => ⟨rfl, rfl, rfl, rfl⟩) rfl (fun j hj => Function.update_of_ne hj ..) hborn rfl
        (hl ▸ rfl) (hl ▸ rfl) (.inl (hl ▸ rfl)) (.inl ⟨rfl, hl ▸ rfl⟩) ⟨.inl (Function.update_self ..), hi.knows.2⟩
        h.called
  · obtain ⟨s', hlock, heq⟩ := Option.map_eq_some_iff.1 hstep
    cases heq
    obtain ⟨hslot, hnull⟩ := hi.knows
    refine h.lock hborn hlock (hl ▸ rfl) (hl ▸ rfl) (hl ▸ rfl) rfl fun hfree => ?_
    have hgiven := h.given_of_self (hi.mem_self hnull rfl) hfree
    rw [UThreads.lock, if_neg (by decide), if_pos hfree] at hlock
    cases hlock
    exact ⟨hslot, hnull, hgiven⟩
  · cases hstep
    exact h.quiet (fun _ => ⟨rfl, rfl, rfl, rfl⟩) rfl (fun _ _ => rfl) hborn rfl (hl ▸ rfl) (hl ▸ rfl)
      (.inl (hl ▸ rfl)) (.inr (.inr ⟨hl ▸ rfl, rfl, rfl⟩)) hi.knows h.called

/-- The new thread reads its function and data. -/
theorem UThreadInv.proxyCall (h : UThreadInv c) (hborn : c.shared.started i ≠ none) (hl : c.loc i = .proxyCall p)
    (hstep : uthreadStep true i choice c.shared (.proxyCall p) = some (s, l)) : UThreadInv (c.set i s l) := by
  have hi := h.thread i
  rw [hl] at hi
  obtain ⟨hslot, hnull, hgiven⟩ := hi.knows
  have hcalled : ∀ x ∈ (((c.shared.objects p).func, (c.shared.objects p).data), c.shared.given p) ::
      c.shared.called, x.2 = some x.1 := by
    rintro x (_ | ⟨_, hx⟩)
    · obtain ⟨⟨func, data⟩, hsome⟩ := Option.ne_none_iff_exists'.1 hgiven
      obtain ⟨hfunc, hdata⟩ := (h.object_of_mem (hi.mem_self hnull rfl)).2.2.stored func data hsome
      simp only [hsome, hfunc, hdata]
    · exact h.called x hx
  cases hstep
  by_cases hset : c.shared.pp_uthread_specific_data i = p
  · rw [if_pos hset]
    exact h.quiet (fun _ => ⟨rfl, rfl, rfl, rfl⟩) rfl (fun _ _ => rfl) hborn rfl (hl ▸ hset) (hl ▸ rfl)
      (.inl (hl ▸ rfl)) (.inl ⟨rfl, hl ▸ rfl⟩) (fun _ => hset ▸ hgiven) hcalled
  · rw [if_neg hset]
    exact h.lose hborn hnull (hl ▸ rfl) (hslot.resolve_left hset) hgiven (hl ▸ rfl) (hl ▸ rfl) (hl ▸ rfl) hcalled

/-- The allocation of `p_uthread_current`, and the storing of its object in the slot. -/
theorem UThreadInv.current (h : UThreadInv c) (hborn : c.shared.started i ≠ none)
    (hl : c.loc i = .currentMalloc ∨ ∃ p, c.loc i = .currentSet p)
    (hstep : uthreadStep true i choice c.shared (c.loc i) = some (s, l)) : UThreadInv (c.set i s l) := by
  have hi := h.thread i
  rcases hl with hl | ⟨p, hl⟩ <;> rw [hl] at hstep hi <;> simp only [uthreadStep] at hstep
  · split at hstep
    · cases hstep
      exact h.quiet (fun _ => ⟨rfl, rfl, rfl, rfl⟩) rfl (fun _ _ => rfl) hborn rfl (hl ▸ rfl) (hl ▸ rfl)
        (.inl (hl ▸ rfl)) (.inl ⟨rfl, hl ▸ rfl⟩) (fun hne => absurd hi.knows hne) h.called
    · cases hstep
      have hobject : (c.shared.malloc i false).objects c.shared.nextObject = ⟨0, false, false, NULL, NULL⟩ :=
        Function.update_self ..
      exact h.malloc hborn false (hl ▸ rfl) (hl ▸ rfl) rfl (hl ▸ rfl) rfl (hl ▸ rfl)
        ⟨hi.knows, congrArg PUThreadBase.func hobject, congrArg PUThreadBase.data hobject⟩
  · obtain ⟨hempty, hnull, hgiven⟩ := hi.knows
    split at hstep
    · cases hstep
      exact h.lose hborn hnull (hl ▸ rfl) hempty hgiven (hl ▸ rfl) (hl ▸ rfl) (hl ▸ rfl) h.called
    · cases hstep
      have hslot : (c.shared.setSlot i p).pp_uthread_specific_data i = p := Function.update_self ..
      exact h.quiet (fun _ => ⟨rfl, rfl, rfl, rfl⟩) rfl (fun j hj => Function.update_of_ne hj ..) hborn rfl
        (by rw [hl]; exact hslot) (hl ▸ rfl) (.inl (hl ▸ rfl)) (.inl ⟨rfl, hl ▸ rfl⟩)
        (fun _ => hslot.symm ▸ hgiven) h.called

/-- The end of a thread: its slot is emptied, and what was in it given back. -/
theorem UThreadInv.exiting (h : UThreadInv c) (hborn : c.shared.started i ≠ none) (hl : c.loc i = .exiting)
    (hstep : uthreadStep true i choice c.shared .exiting = some (s, l)) : UThreadInv (c.set i s l) := by
  have hi := h.thread i
  rw [hl] at hi
  by_cases hslot : c.shared.pp_uthread_specific_data i = NULL
  · simp only [uthreadStep, if_pos hslot] at hstep
    cases hstep
    exact h.quiet (fun _ => ⟨rfl, rfl, rfl, rfl⟩) rfl (fun _ _ => rfl) hborn rfl (hl ▸ rfl) (hl ▸ rfl)
      (.inl (hl ▸ rfl)) (.inl ⟨rfl, hl ▸ rfl⟩) hslot h.called
  · simp only [uthreadStep, if_neg hslot] at hstep
    cases hstep
    exact h.quiet (fun _ => ⟨rfl, rfl, rfl, rfl⟩) rfl (fun j hj => Function.update_of_ne hj ..) hborn rfl
      (hl ▸ rfl) (hl ▸ rfl) (.inl (hl ▸ rfl)) (.inl ⟨rfl, hl ▸ rfl⟩)
      ⟨Function.update_self .., hslot, hi.knows hslot⟩ h.called

/-- **Every step keeps the owners** as the places of the threads say. -/
theorem UThreadInv.step (h : UThreadInv c) (hok : Counted c (i, choice))
    (hstep : uthreadStep true i choice c.shared (c.loc i) = some (s, l)) : UThreadInv (c.set i s l) := by
  have hborn := step_started h hstep
  have hi := h.thread i
  cases hl : c.loc i with
  | running =>
    rw [hl] at hstep
    exact h.call hl hborn hok hstep
  | unborn =>
    rw [hl] at hstep hi
    obtain ⟨p, hp, heq⟩ := Option.map_eq_some_iff.1 hstep
    cases heq
    refine h.quiet (fun _ => ⟨rfl, rfl, rfl, rfl⟩) rfl (fun _ _ => rfl) hborn rfl ?_ (hl ▸ rfl) (.inl (hl ▸ rfl))
      (.inl ⟨rfl, hl ▸ rfl⟩) ⟨hi.knows.1, ?_⟩ h.called
    · rw [hl, selfOf, selfOf, hp]
      rfl
    · rintro rfl
      exact hi.knows.2 hp
  | createLock func data joinable =>
    rw [hl] at hstep hi
    obtain ⟨s', hlock, heq⟩ := Option.map_eq_some_iff.1 hstep
    cases heq
    refine h.lock hborn hlock (hl ▸ rfl) (hl ▸ rfl) (hl ▸ rfl) rfl fun hfree => ?_
    rw [UThreads.lock, if_neg (by decide), if_pos hfree] at hlock
    cases hlock
    exact hi.knows
  | createMalloc func data joinable => exact h.create hborn (.inl hl) hstep
  | createThread p func data joinable => exact h.create hborn (.inr ⟨p, hl⟩) hstep
  | createFree p =>
    rw [hl] at hstep hi
    cases hstep
    exact h.free hborn (hl ▸ rfl) (hl ▸ rfl) rfl (hl ▸ rfl) hi.knows
  | createUnlock =>
    rw [hl] at hstep hi
    cases hstep
    exact h.quiet (fun _ => ⟨rfl, rfl, rfl, rfl⟩) rfl (fun _ _ => rfl) hborn rfl (hl ▸ rfl) (hl ▸ rfl)
      (.inl (hl ▸ rfl)) (.inr (.inr ⟨hl ▸ rfl, rfl, rfl⟩)) hi.knows h.called
  | createStore p func data fields =>
    rw [hl] at hstep
    exact h.store hl hborn hstep
  | proxySet p => exact h.proxy hborn (.inl hl) hstep
  | proxyLock p => exact h.proxy hborn (.inr (.inl hl)) hstep
  | proxyUnlock p => exact h.proxy hborn (.inr (.inr hl)) hstep
  | proxyCall p =>
    rw [hl] at hstep
    exact h.proxyCall hborn hl hstep
  | currentMalloc => exact h.current hborn (.inl hl) hstep
  | currentCount p =>
    rw [hl] at hstep
    cases hstep
    exact h.countOne hl hborn
  | currentSet p => exact h.current hborn (.inr ⟨p, hl⟩) hstep
  | unrefFree p exits =>
    rw [hl] at hstep hi
    cases hstep
    cases exits
    · exact h.free hborn (hl ▸ rfl) (hl ▸ rfl) rfl (hl ▸ rfl) hi.knows
    · exact h.free hborn (hl ▸ rfl) (hl ▸ rfl) rfl (hl ▸ rfl) hi.knows
  | exiting =>
    rw [hl] at hstep
    exact h.exiting hborn hl hstep
  | cleanup p =>
    rw [hl] at hstep
    cases hstep
    by_cases hone : (c.shared.objects p).ref_count = 1
    · rw [if_pos hone]
      exact h.cleanup hl hborn (if_pos hone).symm rfl rfl fun hslot hne => absurd hslot hne
    · rw [if_neg hone]
      exact h.cleanup hl hborn (if_neg hone).symm rfl rfl fun hslot hne => absurd hslot hne
  | gone =>
    rw [hl] at hstep
    cases hstep

end Plibsys
