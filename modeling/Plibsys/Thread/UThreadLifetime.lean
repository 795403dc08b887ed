/-
  The life of a thread object: freed once, and not as long as its thread or a caller needs it.
-/
import Plibsys.Thread.UThreadOwners

namespace Plibsys

open Interleaving

variable {ι : Type} [DecidableEq ι]

/-- The object with which a thread was started, or on which one of the functions works. -/
def UThreadPlace.touches (s : UThreads ι) (i : ι) : UThreadPlace → Option ppointer
  | .unborn => s.started i
  | .createThread p _ _ _ | .createFree p | .createStore p _ _ _ | .proxySet p | .proxyLock p | .proxyUnlock p
  | .proxyCall p | .currentCount p | .currentSet p | .unrefFree p _ | .cleanup p => some p
  | _ => none

/-- What holds of the objects at any time: none is freed twice, or while a slot has it, a caller owns a
    reference to it or a function works on it; a new thread finds, when it reads its function and data
    and when it gives its reference back, that the creator has stored them and the counter; and an object
    that nobody needs any more has been freed, if the reference of its thread is not lost. -/
structure UThreadLifetime (c : Config ι (UThreads ι) UThreadPlace) : Prop where
  freed_once : ∀ p, c.shared.frees p ≤ 1
  slot : ∀ i, c.shared.pp_uthread_specific_data i ≠ NULL → c.shared.frees (c.shared.pp_uthread_specific_data i) = 0
  caller : ∀ i p, .caller i ∈ c.shared.owners p → c.shared.frees p = 0
  lost : ∀ p, .lost ∈ c.shared.owners p → c.shared.frees p = 0
  touched : ∀ i p, (c.loc i).touches c.shared i = some p → c.shared.frees p = 0
  stored : ∀ i p, c.loc i = .proxyCall p ∨ c.loc i = .cleanup p →
    c.shared.given p = some ((c.shared.objects p).func, (c.shared.objects p).data) ∧
      (c.shared.objects p).ref_count = Int32.ofNat (Multiset.card (c.shared.owners p))
  called : ∀ x ∈ c.shared.called, x.2 = some x.1
  freed : ∀ p, p ≠ NULL → p < c.shared.nextObject → (∀ i, .caller i ∉ c.shared.owners p) →
    (∀ i, c.shared.pp_uthread_specific_data i ≠ p) → (∀ i, (c.loc i).touches c.shared i ≠ some p) →
    .lost ∉ c.shared.owners p → c.shared.frees p = 1

/-- The calls of `p_uthread_set_local`. -/
def UThreadPlace.setsLocal : UThreadPlace → Bool
  | .proxySet _ | .currentSet _ => true
  | _ => false

def UThreadChoice.fails {ι : Type} : UThreadChoice ι → Bool
  | .fail => true
  | _ => false

/-- `p_uthread_set_local` does not fail in this step. -/
def SetsLocal (c : Config ι (UThreads ι) UThreadPlace) (x : ι × UThreadChoice ι) : Prop :=
  (c.loc x.1).setsLocal = true → x.2.fails = false

instance (c : Config ι (UThreads ι) UThreadPlace) (x : ι × UThreadChoice ι) : Decidable (SetsLocal c x) :=
  inferInstanceAs (Decidable (_ = true → _ = false))

variable {c : Config ι (UThreads ι) UThreadPlace} {i : ι} {p : ppointer} {outside : ι → Bool}
  {xs : List (ι × UThreadChoice ι)}

theorem uThreadInv_start : UThreadInv (uthreadStart outside) where
  next_pos := Nat.one_pos
  fresh _ _ := ⟨rfl, rfl, rfl⟩
  object p hnull hp := absurd (Nat.lt_one_iff.1 hp) hnull
  creating _ h0 := absurd rfl h0
  thread i := by
    by_cases hi : outside i = true
    · have hl : (uthreadStart outside).loc i = .running := if_pos hi
      rw [hl]
      exact ⟨fun p => (if_neg fun hp => hp.1 hp.2).symm, fun p => (if_neg (by rintro ⟨⟩)).symm,
        ⟨by rintro ⟨⟩, by rintro ⟨⟩⟩,
        fun hne => absurd rfl hne⟩
    · have hl : (uthreadStart outside).loc i = .unborn := if_neg hi
      have hstarted : (uthreadStart outside).shared.started i = none := if_neg hi
      rw [hl]
      refine ⟨fun p => ?_, fun p => (if_neg (by rintro ⟨⟩)).symm, ⟨by rintro ⟨⟩, by rintro ⟨⟩⟩, rfl, ?_⟩
      · rw [selfOf, hstarted]
        exact (if_neg fun hp => hp.1 hp.2).symm
      · rw [hstarted]
        rintro ⟨⟩
  born i hi := by
    by_cases hout : outside i = true
    · cases (if_pos hout).symm.trans hi
    · exact if_neg hout
  called := by rintro _ ⟨⟩

omit [DecidableEq ι] in
/-- The reference of a thread is the one in its slot, or one of the functions works on the object. -/
theorem selfOf_cases (hnull : p ≠ NULL) (hp : p = selfOf c.shared i (c.loc i)) :
    c.shared.pp_uthread_specific_data i = p ∨ (c.loc i).touches c.shared i = some p := by
  cases hl : c.loc i <;> rw [hl] at hp <;>
    first | exact .inl hp.symm | exact .inr (congrArg some hp.symm) | skip
  refine .inr ?_
  rw [UThreadPlace.touches]
  rw [selfOf] at hp
  cases hs : c.shared.started i with
  | none =>
    rw [hs] at hp
    exact absurd hp hnull
  | some q =>
    rw [hs] at hp
    exact congrArg some hp.symm

theorem UThreadInv.owners_touches (h : UThreadInv c) (hp : (c.loc i).touches c.shared i = some p) :
    ∃ x, x ∈ c.shared.owners p := by
  have hi := h.thread i
  cases hl : c.loc i <;> rw [hl] at hp hi <;> try cases hp
  case unborn =>
    refine ⟨_, hi.mem_self (fun hnull => hi.knows.2 (hnull ▸ hp)) ?_⟩
    have hstarted : c.shared.started i = some p := hp
    rw [selfOf, hstarted]
    rfl
  case createStore func data fields =>
    obtain ⟨-, ⟨k, howners⟩, -⟩ := hi.knows
    exact ⟨.self k, howners ▸ Multiset.mem_cons_self ..⟩
  case proxySet => exact ⟨_, hi.mem_self hi.knows.2 rfl⟩
  case proxyLock => exact ⟨_, hi.mem_self hi.knows.2 rfl⟩
  case proxyUnlock => exact ⟨_, hi.mem_self hi.knows.2.1 rfl⟩
  case proxyCall => exact ⟨_, hi.mem_self hi.knows.2.1 rfl⟩
  case currentSet => exact ⟨_, hi.mem_self hi.knows.2.1 rfl⟩
  case cleanup => exact ⟨_, hi.mem_self hi.knows.2.1 rfl⟩
  all_goals
    have howners : c.shared.owners p = {.busy i} := h.owners_busy (hl ▸ rfl)
    exact ⟨.busy i, howners ▸ Multiset.mem_singleton_self _⟩

theorem UThreadInv.mem_slot (h : UThreadInv c) (hnull : c.shared.pp_uthread_specific_data i ≠ NULL) :
    .self i ∈ c.shared.owners (c.shared.pp_uthread_specific_data i) := by
  have hi := h.thread i
  refine hi.mem_self hnull ?_
  cases hl : c.loc i <;> rw [hl] at hi <;>
    first | rfl | exact absurd hi.knows.1 hnull | exact hi.knows.1.resolve_right hnull

/-- After the handshake the object is as the creator has left it. -/
theorem UThreadInv.stored (h : UThreadInv c) (hself : .self i ∈ c.shared.owners p)
    (hgiven : c.shared.given p ≠ none) :
    c.shared.given p = some ((c.shared.objects p).func, (c.shared.objects p).data) ∧
      (c.shared.objects p).ref_count = Int32.ofNat (Multiset.card (c.shared.owners p)) := by
  have hobject := (h.object_of_mem hself).2.2
  refine ⟨?_, hobject.count hgiven (owners_ne_zero hself) (hobject.no_busy hself (by rintro _ ⟨⟩))⟩
  obtain ⟨⟨func, data⟩, hsome⟩ := Option.ne_none_iff_exists'.1 hgiven
  obtain ⟨hfunc, hdata⟩ := hobject.stored func data hsome
  rw [hsome, hfunc, hdata]

theorem UThreadInv.lifetime (h : UThreadInv c) : UThreadLifetime c where
  freed_once p := by
    by_cases hp : p = NULL ∨ c.shared.nextObject ≤ p
    · rw [(h.fresh p hp).2.1]
      exact Nat.zero_le 1
    · rw [(h.object p (fun hnull => hp (.inl hnull)) (Nat.lt_of_not_le fun hge => hp (.inr hge))).frees]
      split
      · exact Nat.le_refl 1
      · exact Nat.zero_le 1
  slot _ hnull := h.frees_of_mem (h.mem_slot hnull)
  caller i p hx := h.frees_of_mem hx
  lost p hx := h.frees_of_mem hx
  touched i p hp := by
    obtain ⟨x, hx⟩ := h.owners_touches hp
    exact h.frees_of_mem hx
  stored i p hl := by
    have hi := h.thread i
    rcases hl with hl | hl <;> rw [hl] at hi
    · exact h.stored (hi.mem_self hi.knows.2.1 rfl) hi.knows.2.2
    · exact h.stored (hi.mem_self hi.knows.2.1 rfl) hi.knows.2.2
  called := h.called
  freed p hnull hlt hcaller hslot htouch hlost := by
    have hobject := h.object p hnull hlt
    rw [hobject.frees, if_pos]
    refine Multiset.eq_zero_of_forall_notMem fun x hx => ?_
    cases x with
    | caller i => exact hcaller i hx
    | self i =>
      have hself := Multiset.count_pos.2 hx
      rw [(h.thread i).self] at hself
      split at hself
      · rename_i hp
        rcases selfOf_cases hnull hp.2 with hs | ht
        · exact hslot i hs
        · exact htouch i ht
      · cases hself
    | busy i =>
      have hbusy := Multiset.count_pos.2 hx
      rw [(h.thread i).busy] at hbusy
      split at hbusy
      · rename_i hp
        refine htouch i ?_
        cases hl : c.loc i <;> rw [hl] at hp <;> cases hp <;> rfl
      · cases hbusy
    | lost => exact hlost hx

/-! ## When no reference is lost -/

/-- The object of a thread that is about to call its function. -/
def UThreadPlace.proxied : UThreadPlace → Option ppointer
  | .proxyLock p | .proxyUnlock p | .proxyCall p => some p
  | _ => none

/-- No reference is lost, and a thread that leaves `pp_uthread_proxy` will have its object in its slot. -/
structure NoneLost (c : Config ι (UThreads ι) UThreadPlace) : Prop where
  lost : ∀ p, .lost ∉ c.shared.owners p
  slot : ∀ i p, (c.loc i).proxied = some p → c.shared.pp_uthread_specific_data i = p

namespace NoneLost

variable {s : UThreads ι} {l : UThreadPlace} {choice : UThreadChoice ι}

/-- A step that adds no lost reference to an object. -/
theorem set (h : NoneLost c) (p : ppointer) (hsame : ∀ q, q ≠ p → s.owners q = c.shared.owners q)
    (hlost : .lost ∉ s.owners p)
    (hslot : ∀ j, j ≠ i → s.pp_uthread_specific_data j = c.shared.pp_uthread_specific_data j)
    (hl : ∀ q, l.proxied = some q → s.pp_uthread_specific_data i = q) : NoneLost (c.set i s l) := by
  refine ⟨fun q => ?_, fun j q => ?_⟩
  · by_cases hq : q = p
    · exact hq ▸ hlost
    · exact fun hx => h.lost q (hsame q hq ▸ hx)
  · by_cases hj : j = i
    · subst hj
      rw [loc_set_self]
      exact hl q
    · rw [loc_set_of_ne hj]
      exact fun hq => (hslot j hj).trans (h.slot j q hq)

theorem quiet (h : NoneLost c) (howners : s.owners = c.shared.owners)
    (hslot : ∀ j, j ≠ i → s.pp_uthread_specific_data j = c.shared.pp_uthread_specific_data j)
    (hl : ∀ q, l.proxied = some q → s.pp_uthread_specific_data i = q) : NoneLost (c.set i s l) :=
  h.set NULL (fun q _ => congrFun howners q) (howners ▸ h.lost NULL) hslot hl

theorem lock (h : NoneLost c) (hlock : c.shared.lock true i = some s)
    (hl : ∀ q, l.proxied = some q → (c.loc i).proxied = some q) : NoneLost (c.set i s l) := by
  rw [UThreads.lock, if_neg (by decide)] at hlock
  split at hlock <;> cases hlock
  exact h.quiet rfl (fun _ _ => rfl) fun q hq => h.slot i q (hl q hq)

theorem malloc (h : NoneLost c) (joinable : Bool) (hl : l.proxied = none) :
    NoneLost (c.set i (c.shared.malloc i joinable) l) := by
  refine h.set c.shared.nextObject (fun q hq => (sameObject_malloc hq).owners) (fun hx => ?_) (fun _ _ => rfl)
    (by rw [hl]; rintro q ⟨⟩)
  rw [owners_malloc] at hx
  cases Multiset.mem_singleton.1 hx

theorem free (h : NoneLost c) (p : ppointer) (hl : l.proxied = none) :
    NoneLost (c.set i (c.shared.free p) l) := by
  refine h.set p (fun q hq => (sameObject_free hq).owners) (fun hx => ?_) (fun _ _ => rfl)
    (by rw [hl]; rintro q ⟨⟩)
  rw [UThreads.free] at hx
  exact Multiset.notMem_zero _ (owners_setOwners (m := 0) (s := c.shared) ▸ hx)

theorem unref (h : NoneLost c) (p : ppointer) (x : Owner ι) (hl : l.proxied = none) :
    NoneLost (c.set i (c.shared.unref i p x) l) := by
  refine h.set p (fun q hq => Function.update_of_ne hq ..) ?_ (fun _ _ => rfl) (by rw [hl]; rintro q ⟨⟩)
  rw [UThreads.unref, owners_setOwners]
  split
  · exact fun hx => by cases Multiset.mem_singleton.1 hx
  · exact fun hx => h.lost p (Multiset.mem_of_mem_erase hx)

theorem call (h : NoneLost c) (hcall : uthreadCall i c.shared choice = some (s, l)) :
    NoneLost (c.set i s l) := by
  cases choice with
  | create func data joinable =>
    cases hcall
    refine h.quiet rfl (fun _ _ => rfl) fun q hq => ?_
    split at hq <;> cases hq
  | current =>
    cases hcall
    refine h.quiet rfl (fun _ _ => rfl) fun q hq => ?_
    split at hq <;> cases hq
  | ref p =>
    simp only [uthreadCall] at hcall
    split at hcall <;> cases hcall
    refine h.set p (fun q hq => Function.update_of_ne hq ..) ?_ (fun _ _ => rfl) (by rintro q ⟨⟩)
    rw [UThreads.ref, owners_setOwners, Multiset.mem_cons]
    rintro (hx | hx)
    · cases hx
    · exact h.lost p hx
  | unref p =>
    simp only [uthreadCall] at hcall
    split at hcall <;> cases hcall
    exact h.unref p _ (by split <;> rfl)
  | give p j =>
    simp only [uthreadCall] at hcall
    split at hcall <;> cases hcall
    refine h.set p (fun q hq => Function.update_of_ne hq ..) ?_ (fun _ _ => rfl) (by rintro q ⟨⟩)
    rw [owners_setOwners, Multiset.mem_cons]
    rintro (hx | hx)
    · cases hx
    · exact h.lost p (Multiset.mem_of_mem_erase hx)
  | exit =>
    cases hcall
    exact h.quiet rfl (fun _ _ => rfl) (by rintro q ⟨⟩)
  | start child => cases hcall
  | fail => cases hcall
  | proceed => cases hcall

/-- The new thread is the owner, and the creator. -/
theorem start (h : NoneLost c) {k : ι} {p : ppointer} (hl : l.proxied = none) :
    NoneLost (c.set i (c.shared.start i k p) l) := by
  refine h.set p (fun q hq => Function.update_of_ne hq ..) ?_ (fun _ _ => rfl) (by rw [hl]; rintro q ⟨⟩)
  have hnew : (c.shared.start i k p).owners p = .self k ::ₘ {.caller i} := owners_setOwners
  rw [hnew, Multiset.mem_cons, Multiset.mem_singleton]
  rintro (hx | hx) <;> cases hx

/-- A step loses a reference only behind a failing `p_uthread_set_local`. -/
theorem step (h : NoneLost c) (hok : SetsLocal c (i, choice))
    (hstep : uthreadStep true i choice c.shared (c.loc i) = some (s, l)) : NoneLost (c.set i s l) := by
  cases hl : c.loc i with
  | running =>
    rw [hl] at hstep
    exact h.call hstep
  | unborn =>
    rw [hl] at hstep
    obtain ⟨p, -, heq⟩ := Option.map_eq_some_iff.1 hstep
    cases heq
    exact h.quiet rfl (fun _ _ => rfl) (by rintro q ⟨⟩)
  | createLock func data joinable =>
    rw [hl] at hstep
    obtain ⟨s', hlock, heq⟩ := Option.map_eq_some_iff.1 hstep
    cases heq
    exact h.lock hlock (by rintro q ⟨⟩)
  | createMalloc func data joinable =>
    rw [hl] at hstep
    simp only [uthreadStep] at hstep
    split at hstep <;> cases hstep
    · exact h.quiet rfl (fun _ _ => rfl) (by rintro q ⟨⟩)
    · exact h.malloc joinable rfl
  | createThread p func data joinable =>
    rw [hl] at hstep
    simp only [uthreadStep] at hstep
    split at hstep
    · cases hstep
      exact h.quiet rfl (fun _ _ => rfl) (by rintro q ⟨⟩)
    · split at hstep <;> cases hstep
      exact h.start rfl
    · cases hstep
  | createFree p =>
    rw [hl] at hstep
    cases hstep
    exact h.free p rfl
  | createUnlock =>
    rw [hl] at hstep
    cases hstep
    exact h.quiet rfl (fun _ _ => rfl) (by rintro q ⟨⟩)
  | createStore p func data fields =>
    rw [hl] at hstep
    cases fields <;> cases hstep <;> exact h.quiet rfl (fun _ _ => rfl) (by rintro q ⟨⟩)
  | proxySet p =>
    rw [hl] at hstep
    simp only [uthreadStep] at hstep
    split at hstep <;> cases hstep
    · cases hok (hl ▸ rfl)
    · refine h.quiet rfl (fun j hj => Function.update_of_ne hj ..) ?_
      rintro q ⟨⟩
      exact Function.update_self ..
  | proxyLock p =>
    rw [hl] at hstep
    obtain ⟨s', hlock, heq⟩ := Option.map_eq_some_iff.1 hstep
    cases heq
    exact h.lock hlock fun q hq => hl ▸ hq
  | proxyUnlock p =>
    rw [hl] at hstep
    cases hstep
    exact h.quiet rfl (fun _ _ => rfl) fun q hq => h.slot i q (hl ▸ hq)
  | proxyCall p =>
    rw [hl] at hstep
    cases hstep
    rw [if_pos (h.slot i p (hl ▸ rfl))]
    exact h.quiet rfl (fun _ _ => rfl) (by rintro q ⟨⟩)
  | currentMalloc =>
    rw [hl] at hstep
    simp only [uthreadStep] at hstep
    split at hstep <;> cases hstep
    · exact h.quiet rfl (fun _ _ => rfl) (by rintro q ⟨⟩)
    · exact h.malloc false rfl
  | currentCount p =>
    rw [hl] at hstep
    cases hstep
    refine h.set p (fun q hq => Function.update_of_ne hq ..) ?_ (fun _ _ => rfl) (by rintro q ⟨⟩)
    have hnew : ∀ s' : UThreads ι, .lost ∉ (s'.setOwners p {.self i}).owners p := by
      intro s' hx
      rw [owners_setOwners] at hx
      cases Multiset.mem_singleton.1 hx
    exact hnew _
  | currentSet p =>
    rw [hl] at hstep
    simp only [uthreadStep] at hstep
    split at hstep <;> cases hstep
    · cases hok (hl ▸ rfl)
    · exact h.quiet rfl (fun j hj => Function.update_of_ne hj ..) (by rintro q ⟨⟩)
  | unrefFree p exits =>
    rw [hl] at hstep
    cases hstep
    exact h.free p (by cases exits <;> rfl)
  | exiting =>
    rw [hl] at hstep
    simp only [uthreadStep] at hstep
    split at hstep <;> cases hstep
    · exact h.quiet rfl (fun _ _ => rfl) (by rintro q ⟨⟩)
    · exact h.quiet rfl (fun j hj => Function.update_of_ne hj ..) (by rintro q ⟨⟩)
  | cleanup p =>
    rw [hl] at hstep
    cases hstep
    exact h.unref p _ (by split <;> rfl)
  | gone =>
    rw [hl] at hstep
    cases hstep

end NoneLost

/-- **A thread object is freed once, when nobody needs it any more**, in every state of a run in which
    fewer than 2^32 references to an object are owned at once; no reference is lost if no call of
    `p_uthread_set_local` fails. -/
theorem uthread_lifetime (hrun : run (uthreadStep true) (uthreadStart outside) xs = some c)
    (hok : Along (uthreadStep true) Counted (uthreadStart outside) xs) :
    UThreadLifetime c ∧
      (Along (uthreadStep true) SetsLocal (uthreadStart outside) xs → ∀ p, .lost ∉ c.shared.owners p) := by
  refine ⟨(run_invariant_along (fun _ _ _ _ _ h hx hstep => h.step hx hstep) uThreadInv_start hok hrun).lifetime,
    fun hset => ?_⟩
  have hstart : NoneLost (uthreadStart outside) := by
    refine ⟨fun p => Multiset.notMem_zero _, fun i p hp => ?_⟩
    rw [uthreadStart] at hp
    dsimp only at hp
    split at hp <;> cases hp
  exact (run_invariant_along (fun _ _ _ _ _ h hx hstep => h.step hx hstep) hstart hset hrun).lost

/-- After a failing allocation, a new thread runs ahead of its creator; its reference is the last one. -/
theorem uthread_lifetime_ahead : ∃ c, Reaches (uthreadStep true) (uthreadStart fun i : Bool => !i) c ∧
    UThreadLifetime c ∧ (∀ p, .lost ∉ c.shared.owners p) ∧ c.shared.called = [((10, 20), some (10, 20))] ∧
      c.shared.frees 1 = 1 := by
  let xs : List (Bool × UThreadChoice Bool) :=
    [(false, .create 10 20 true), (false, .proceed), (false, .fail), (false, .proceed),
      (false, .create 10 20 true), (false, .proceed), (false, .proceed), (false, .start (some true)),
      (true, .proceed), (true, .proceed)] ++ List.replicate 6 (false, .proceed) ++
    [(false, .unref 1)] ++ List.replicate 3 (true, .proceed) ++ [(true, .exit)] ++ List.replicate 4
    (true, .proceed)
  have hok : Along (uthreadStep true) Counted (uthreadStart fun i => !i) xs := by decide
  have hset : Along (uthreadStep true) SetsLocal (uthreadStart fun i => !i) xs := by decide
  have hrun : (run (uthreadStep true) (uthreadStart fun i => !i) xs).map (fun c =>
      (c.shared.called, c.shared.frees 1)) = some ([((10, 20), some (10, 20))], 1) := by decide
  obtain ⟨c, hc, hfacts⟩ := Option.map_eq_some_iff.1 hrun
  obtain ⟨hcalled, hfrees⟩ := Prod.mk.inj hfacts
  obtain ⟨hlife, hlost⟩ := uthread_lifetime hc hok
  exact ⟨c, ⟨xs, hc⟩, hlife, hlost hset, hcalled, hfrees⟩

/-! ## Too many references, and calls that fail -/

/-- A caller takes any number of references. -/
theorem run_refs (hl : c.loc i = .running) (hx : .caller i ∈ c.shared.owners p) (n : ℕ) :
    ∃ c', run (uthreadStep true) c (List.replicate n (i, .ref p)) = some c' ∧ c'.loc = c.loc ∧
      .caller i ∈ c'.shared.owners p ∧
      c'.shared.pp_uthread_specific_data = c.shared.pp_uthread_specific_data ∧ c'.shared.frees = c.shared.frees ∧
      (c'.shared.objects p).ref_count = (c.shared.objects p).ref_count + Int32.ofNat n := by
  induction n generalizing c with
  | zero => exact ⟨c, rfl, rfl, hx, rfl, rfl, (Int32.add_zero _).symm⟩
  | succ n ih =>
    have hnext : next (uthreadStep true) c (i, .ref p) = some (c.set i (c.shared.ref i p) .running) := by
      simp only [next, hl, uthreadStep, uthreadCall, if_pos (Or.inl hx), Option.map_some]
    have hmem : .caller i ∈ (c.shared.ref i p).owners p := by
      rw [UThreads.ref, owners_setOwners]
      exact Multiset.mem_cons_self ..
    obtain ⟨c', hrun, hloc, hx', hslot, hfrees, hcount⟩ :=
      ih (c := c.set i (c.shared.ref i p) .running) loc_set_self hmem
    refine ⟨c', ?_, hloc.trans ?_, hx', hslot, hfrees, hcount.trans ?_⟩
    · rw [List.replicate_succ, run_cons, hnext]
      exact hrun
    · rw [← hl]
      exact Function.update_eq_self ..
    · have hobject : (c.shared.ref i p).objects p =
          { c.shared.objects p with ref_count := (c.shared.objects p).ref_count + 1 } := Function.update_self ..
      rw [shared_set, hobject, refCount_succ, Int32.add_assoc, Int32.add_comm 1]

/-- The counter of an object wraps: with 2^32 references the object is freed in spite of its thread. -/
theorem uthread_wraps : ∃ c, Reaches (uthreadStep true) (uthreadStart fun i : Bool => !i) c ∧
    c.loc true = .running ∧ c.shared.pp_uthread_specific_data true = 1 ∧ c.shared.frees 1 = 1 := by
  let xs : List (Bool × UThreadChoice Bool) :=
    [(false, .create 10 20 true), (false, .proceed), (false, .proceed), (false, .start (some true))] ++
    List.replicate 6 (false, .proceed) ++ List.replicate 5 (true, .proceed)
  have hfirst : (run (uthreadStep true) (uthreadStart fun i => !i) xs).map (fun c => (c.loc false, c.loc true,
      c.shared.pp_uthread_specific_data true, c.shared.frees 1, (c.shared.objects 1).ref_count,
      decide (.caller false ∈ c.shared.owners 1))) = some (.running, .running, 1, 0, 2, true) := rfl
  obtain ⟨c, hc, hfacts⟩ := Option.map_eq_some_iff.1 hfirst
  simp only [Prod.mk.injEq, decide_eq_true_eq] at hfacts
  obtain ⟨hfalse, htrue, hslot, hfrees, hcount, hmem⟩ := hfacts
  obtain ⟨c', hrefs, hloc, hmem', hslot', hfrees', hcount'⟩ := run_refs hfalse hmem (2 ^ 32 - 1)
  rw [hcount] at hcount'
  have hone : (c'.shared.objects 1).ref_count = 1 := hcount'.trans (by decide)
  -- one reference less, and the counter is 0
  let c₁ := c'.set false (c'.shared.unref false 1 (.caller false)) (.unrefFree 1 false)
  have hunref : next (uthreadStep true) c' (false, .unref 1) = some c₁ := by
    simp only [next, hloc, hfalse, uthreadStep, uthreadCall, if_pos hmem', if_pos hone, Option.map_some, c₁]
  have hfree : next (uthreadStep true) c₁ (false, .proceed) = some (c₁.set false (c₁.shared.free 1) .running) := by
    simp only [next, c₁, loc_set_self, uthreadStep, Option.map_some, Bool.false_eq_true, if_false]
  refine ⟨c₁.set false (c₁.shared.free 1) .running,
    ⟨xs ++ (List.replicate (2 ^ 32 - 1) (false, .ref 1) ++ [(false, .unref 1), (false, .proceed)]), ?_⟩, ?_,
      ?_, ?_⟩
  · rw [run_append, hc, Option.bind_some, run_append, hrefs, Option.bind_some, run_cons, hunref, Option.bind_some,
      run_cons, hfree]
    rfl
  · rw [loc_set_of_ne (by decide), loc_set_of_ne (by decide), hloc, htrue]
  · exact (congrFun hslot' true).trans hslot
  · have hsame : c₁.shared.frees = c'.shared.frees := rfl
    rw [shared_set, frees_free, hsame, hfrees', hfrees]

/-- The life of an object depends on three things.  With 2^32 references its counter wraps.  If
    `p_uthread_set_local` fails, the object is not freed when the thread is gone and nobody needs it any more.
    And without the spinlock a new thread reads its function before it is stored. -/
theorem uthread_lifetime_fails :
    (∃ c, Reaches (uthreadStep true) (uthreadStart fun i : Bool => !i) c ∧
      c.loc true = .running ∧ c.shared.pp_uthread_specific_data true = 1 ∧ c.shared.frees 1 = 1) ∧
    (∃ c, Reaches (uthreadStep true) (uthreadStart fun i : Bool => !i) c ∧
      (c.loc true).touches c.shared true = none ∧ (c.loc false).touches c.shared false = none ∧
        (∀ i, c.shared.pp_uthread_specific_data i = NULL) ∧ (∀ i, .caller i ∉ c.shared.owners 1) ∧
        1 < c.shared.nextObject ∧ c.shared.frees 1 = 0) ∧
    ∃ c, Reaches (uthreadStep false) (uthreadStart fun i : Bool => !i) c ∧
      c.shared.called = [((NULL, NULL), none)] := by
  refine ⟨uthread_wraps, ?_, ?_⟩
  · let xs : List (Bool × UThreadChoice Bool) :=
      [(false, .create 10 20 true), (false, .proceed), (false, .proceed), (false, .start (some true))] ++
      List.replicate 6 (false, .proceed) ++ [(true, .proceed), (true, .fail)] ++
      List.replicate 3 (true, .proceed) ++ [(true, .exit), (true, .proceed), (false, .unref 1)]
    have hrun : (run (uthreadStep true) (uthreadStart fun i => !i) xs).map (fun c =>
        decide ((c.loc true).touches c.shared true = none ∧ (c.loc false).touches c.shared false = none ∧
          (∀ i, c.shared.pp_uthread_specific_data i = NULL) ∧ (∀ i, .caller i ∉ c.shared.owners 1) ∧
          1 < c.shared.nextObject ∧ c.shared.frees 1 = 0)) = some true := by
      decide
    obtain ⟨c, hc, hfacts⟩ := Option.map_eq_some_iff.1 hrun
    exact ⟨c, ⟨xs, hc⟩, of_decide_eq_true hfacts⟩
  · let xs : List (Bool × UThreadChoice Bool) :=
      [(false, .create 10 20 true), (false, .proceed), (false, .proceed), (false, .start (some true))] ++
      List.replicate 5 (true, .proceed)
    have hrun : (run (uthreadStep false) (uthreadStart fun i => !i) xs).map (·.shared.called) =
        some [((NULL, NULL), none)] := by decide
    obtain ⟨c, hc, hcalled⟩ := Option.map_eq_some_iff.1 hrun
    exact ⟨c, ⟨xs, hc⟩, hcalled⟩

end Plibsys
