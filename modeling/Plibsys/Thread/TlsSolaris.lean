/-
  The native key of a `PUThreadKey` on Solaris: created under a mutex.

  What is tested under the mutex is the key read before it was locked.  A thread that waited there
  while another one set the key therefore creates a second native key, and replaces the first.
-/
import Plibsys.Thread.TlsKey

namespace Plibsys

open Interleaving

namespace Solaris

/-- The `PUThreadKey` and the owner of `pp_uthread_tls_mutex`. -/
structure TlsMutexState (ι : Type) where
  tls : TlsState ι
  mutex : Option ι

/-- Where a thread is in `pp_uthread_get_tls_key`, with its `thread_key`. -/
inductive TlsPlace where
  | get
  | lock (p : ppointer)
  | malloc
  | create (p : ppointer)
  | store (p : ppointer)
  | unlock (p : ppointer)
  | done (p : ppointer)
  deriving DecidableEq, Repr

variable {ι : Type} [DecidableEq ι]

/-- One atomic step of `pp_uthread_get_tls_key`; there is none while another thread has the mutex. -/
def ppUthreadGetTlsKey (i : ι) (s : TlsMutexState ι) : TlsPlace → Option (TlsMutexState ι × TlsPlace)
  | .get => some (s, if s.tls.key = NULL then .lock s.tls.key else .done s.tls.key)
  | .lock p =>
    -- the second test reads `thread_key`, not `key->key`
    if s.mutex = none then some ({ s with mutex := some i }, if p = NULL then .malloc else .unlock p) else none
  | .malloc => some ({ s with tls := s.tls.malloc }, .create s.tls.nextObject)
  | .create p => some ({ s with tls := s.tls.keyCreate p }, .store p)
  | .store p => some ({ s with tls := s.tls.setKey p }, .unlock p)
  | .unlock p => some ({ s with mutex := none }, .done p)
  | .done p => some (s, .done p)

/-- A thread is outside of the calls (`none`), or it makes a call. -/
def tlsStep (i : ι) (call : TlsCall) (s : TlsMutexState ι) :
    Option (TlsCall × TlsPlace) → Option (TlsMutexState ι × Option (TlsCall × TlsPlace))
  | none => some (s, some (call, .get))
  | some (call, .done p) => some ({ s with tls := s.tls.use i p call }, none)
  | some (call, place) => (ppUthreadGetTlsKey i s place).map fun r => (r.1, some (call, r.2))

/-- The object that a thread has not yet stored in the key, and what happened to it. -/
def TlsPlace.object : TlsPlace → Option (ppointer × TlsObject)
  | .create p => some (p, ⟨0, 0, 0⟩)
  | .store p => some (p, ⟨1, 0, 0⟩)
  | _ => none

def owned (l : Option (TlsCall × TlsPlace)) : Option (ppointer × TlsObject) := l.bind fun x => x.2.object

/-- What a thread knows of the key, and whether it has the mutex. -/
def TlsPlace.Knows (s : TlsMutexState ι) (i : ι) : TlsPlace → Prop
  | .get => s.mutex ≠ some i
  | .lock p => s.mutex ≠ some i ∧ p = NULL
  | .malloc | .create _ | .store _ => s.mutex = some i ∧ s.tls.key = NULL
  | .unlock p => s.mutex = some i ∧ p = s.tls.key ∧ s.tls.key ≠ NULL
  | .done p => s.mutex ≠ some i ∧ p = s.tls.key ∧ s.tls.key ≠ NULL

def Knows (s : TlsMutexState ι) (i : ι) (l : Option (TlsCall × TlsPlace)) : Prop :=
  l.elim (s.mutex ≠ some i) fun x => x.2.Knows s i

/-- The objects are owned as the places of the threads say, and none is ever deleted. -/
structure TlsInv (c : Config ι (TlsMutexState ι) (Option (TlsCall × TlsPlace))) : Prop where
  ownership : Ownership c.shared.tls fun i => owned (c.loc i)
  values : ValuesKept c.shared.tls
  deletes : ∀ p, (c.shared.tls.objects p).deletes = 0
  knows : ∀ i, Knows c.shared i (c.loc i)

def TlsPlace.isLock : TlsPlace → Bool
  | .lock _ => true
  | _ => false

/-- Whoever locks the mutex finds the key still unset. -/
def LocksUnset (c : Config ι (TlsMutexState ι) (Option (TlsCall × TlsPlace))) (x : ι × TlsCall) : Prop :=
  (c.loc x.1).any (fun l => l.2.isLock) → c.shared.tls.key = NULL

instance (c : Config ι (TlsMutexState ι) (Option (TlsCall × TlsPlace))) (x : ι × TlsCall) :
    Decidable (LocksUnset c x) :=
  inferInstanceAs (Decidable (_ → _))

variable {c c' : Config ι (TlsMutexState ι) (Option (TlsCall × TlsPlace))} {i j : ι} {call a : TlsCall}
  {place : TlsPlace} {s s' : TlsMutexState ι} {l : Option (TlsCall × TlsPlace)} {p : ppointer}

omit [DecidableEq ι] in
/-- A thread that has not the mutex loses nothing it knows, if the owner of the mutex does not change
    to it and the key stays, or was not yet set. -/
theorem Knows.other (h : Knows s j l) (hmutex : s'.mutex = some j ↔ s.mutex = some j)
    (hkey : s'.tls.key = s.tls.key ∨ s.tls.key = NULL ∧ s.mutex ≠ some j) : Knows s' j l := by
  rcases l with _ | ⟨call, place⟩
  · exact fun h' => h (hmutex.1 h')
  · rcases hkey with hkey | ⟨hnull, hnot⟩
    · cases place <;> simp only [Knows, Option.elim, TlsPlace.Knows, ne_eq, hmutex, hkey] at h ⊢ <;> exact h
    · cases place with
      | get => exact fun h' => h (hmutex.1 h')
      | lock p => exact ⟨fun h' => h.1 (hmutex.1 h'), h.2⟩
      | malloc => exact absurd h.1 hnot
      | create p => exact absurd h.1 hnot
      | store p => exact absurd h.1 hnot
      | unlock p => exact absurd h.1 hnot
      | done p => exact absurd hnull h.2.2

/-- Of a step of the thread `i`, the others learn only that the key was set, by the owner of the mutex. -/
theorem knows_set (h : ∀ j, Knows c.shared j (c.loc j)) (hi : Knows s i l)
    (hmutex : s.mutex = c.shared.mutex ∨ s.mutex = none ∧ c.shared.mutex = some i ∨
      s.mutex = some i ∧ c.shared.mutex = none)
    (hkey : s.tls.key = c.shared.tls.key ∨ c.shared.tls.key = NULL ∧ c.shared.mutex = some i) (j : ι) :
    Knows s j ((c.set i s l).loc j) := by
  refine forall_set (P := Knows s) hi (fun j hj => (h j).other ?_ ?_) j
  · rcases hmutex with heq | ⟨hnone, hsome⟩ | ⟨hsome, hnone⟩
    · rw [heq]
    · simp only [hnone, hsome, Option.some_inj, reduceCtorEq, Ne.symm hj]
    · simp only [hnone, hsome, Option.some_inj, reduceCtorEq, Ne.symm hj]
  · refine hkey.imp_right fun hunset => ⟨hunset.1, fun hother => ?_⟩
    rw [hunset.2] at hother
    exact hj (Option.some.inj hother).symm

theorem TlsInv.step (h : TlsInv c) (hok : LocksUnset c (i, a))
    (hstep : tlsStep i a c.shared (c.loc i) = some (s, l)) : TlsInv (c.set i s l) := by
  obtain ⟨hown, hvalues, hdeletes, hknows⟩ := h
  have hplace := hknows i
  -- a step that leaves the objects alone
  have hsame : ∀ {s' l'}, owned l' = owned (c.loc i) → s'.tls.key = c.shared.tls.key →
      s'.tls.nextObject = c.shared.tls.nextObject → s'.tls.objects = c.shared.tls.objects →
      Ownership s'.tls fun j => owned ((c.set i s' l').loc j) := by
    intro s' l' hl' hkey hnext hobjects
    rw [map_loc_set, hl', Function.update_eq_self i fun j => owned (c.loc j)]
    exact hown.congr hkey hnext hobjects
  cases hl : c.loc i with
  | none =>
    rw [hl] at hstep hsame hplace
    cases hstep
    exact ⟨hsame rfl rfl rfl rfl, hvalues, hdeletes, knows_set hknows hplace (.inl rfl) (.inl rfl)⟩
  | some x =>
    obtain ⟨call, place⟩ := x
    rw [hl] at hstep hsame hplace
    cases place with
    | get =>
      cases hstep
      by_cases hkey : c.shared.tls.key = NULL
      · simp only [if_pos hkey]
        exact ⟨hsame rfl rfl rfl rfl, hvalues, hdeletes, knows_set hknows ⟨hplace, hkey⟩ (.inl rfl) (.inl rfl)⟩
      · simp only [if_neg hkey]
        exact ⟨hsame rfl rfl rfl rfl, hvalues, hdeletes,
          knows_set hknows ⟨hplace, rfl, hkey⟩ (.inl rfl) (.inl rfl)⟩
    | lock p =>
      have hkey := hok (hl ▸ rfl)
      by_cases hfree : c.shared.mutex = none
      · simp only [tlsStep, ppUthreadGetTlsKey, if_pos hfree, if_pos hplace.2] at hstep
        cases hstep
        exact ⟨hsame rfl rfl rfl rfl, hvalues, hdeletes,
          knows_set hknows ⟨rfl, hkey⟩ (.inr (.inr ⟨rfl, hfree⟩)) (.inl rfl)⟩
      · simp only [tlsStep, ppUthreadGetTlsKey, if_neg hfree] at hstep
        cases hstep
    | malloc =>
      cases hstep
      have hi : owned (c.loc i) = none := by
        rw [hl]
        rfl
      refine ⟨?_, hvalues.congr rfl rfl rfl rfl rfl, hdeletes, knows_set hknows hplace (.inl rfl) (.inl rfl)⟩
      rw [map_loc_set]
      exact hown.malloc hi
    | create p =>
      cases hstep
      have hi : owned (c.loc i) = some (p, ⟨0, 0, 0⟩) := by
        rw [hl]
        rfl
      refine ⟨?_, hvalues.congr rfl rfl rfl rfl rfl, fun q => ?_, knows_set hknows hplace (.inl rfl) (.inl rfl)⟩
      · rw [map_loc_set]
        exact hown.update hi fun o => { o with creates := o.creates + 1 }
      · exact (TlsState.keyCreate_deletes ..).trans (hdeletes q)
    | store p =>
      cases hstep
      have hi : owned (c.loc i) = some (p, ⟨1, 0, 0⟩) := by
        rw [hl]
        rfl
      have hp : p ≠ NULL := Nat.ne_of_gt (hown.owned i p _ hi).1
      refine ⟨?_, hvalues.publish hplace.2 hp, hdeletes,
        knows_set hknows ⟨hplace.1, rfl, hp⟩ (.inl rfl) (.inr ⟨hplace.2, hplace.1⟩)⟩
      rw [map_loc_set]
      exact hown.publish hi hplace.2
    | unlock p =>
      cases hstep
      exact ⟨hsame rfl rfl rfl rfl, hvalues, hdeletes,
        knows_set hknows ⟨nofun, hplace.2⟩ (.inr (.inl ⟨rfl, hplace.1⟩)) (.inl rfl)⟩
    | done p =>
      cases hstep
      refine ⟨hsame rfl (TlsState.use_key ..) (TlsState.use_nextObject ..) (TlsState.use_objects ..),
        hvalues.use i hplace.2.1 hplace.2.2 call, fun q => ?_,
        knows_set hknows hplace.1 (.inl rfl) (.inl (TlsState.use_key ..))⟩
      simp only [shared_set, TlsState.use_objects]
      exact hdeletes q

/-- No thread is in a call yet. -/
def tlsStart : Config ι (TlsMutexState ι) (Option (TlsCall × TlsPlace)) := ⟨⟨tlsNew, none⟩, fun _ => none⟩

omit [DecidableEq ι] in
theorem tlsInv_start : TlsInv (tlsStart : Config ι _ _) :=
  ⟨ownership_new, valuesKept_new, fun _ => rfl, fun _ => nofun⟩

omit [DecidableEq ι] in
/-- A native key is the one of the `PUThreadKey`, or its creator still has the mutex. -/
theorem TlsInv.creates_cases (h : TlsInv c) (hp : p ≠ NULL) :
    (c.shared.tls.objects p).creates = 0 ∨
      (p = c.shared.tls.key ∧ (c.shared.tls.objects p).creates = 1) ∨
      (c.shared.tls.key = NULL ∧ (c.shared.tls.objects p).creates = 1 ∧
        ∃ i o, owned (c.loc i) = some (p, o) ∧ c.shared.mutex = some i) := by
  obtain ⟨hown, -, hdeletes, hknows⟩ := h
  by_cases hkey : p = c.shared.tls.key
  · have hobject := hown.key_object (hkey ▸ hp)
    rw [← hkey] at hobject
    exact .inr (.inl ⟨hkey, congrArg TlsObject.creates hobject⟩)
  · by_cases howned : ∃ i o, owned (c.loc i) = some (p, o)
    · obtain ⟨i, o, hio⟩ := howned
      have hobject := (hown.owned i p o hio).2.2.2
      have hi := hio
      have hi' := hknows i
      rcases hl : c.loc i with _ | ⟨call, place⟩
      · rw [hl] at hi
        cases hi
      · rw [hl] at hi hi'
        cases place <;> cases hi
        · exact .inl (congrArg TlsObject.creates hobject)
        · exact .inr (.inr ⟨hi'.2, congrArg TlsObject.creates hobject, i, _, hio, hi'.1⟩)
    · rcases Nat.lt_or_ge p c.shared.tls.nextObject with hlt | hge
      · have hother := hown.others p (Nat.pos_of_ne_zero hp) hlt hkey fun i o hi => howned ⟨i, o, hi⟩
        have hdelete := hdeletes p
        rw [hother] at hdelete
        cases hdelete
      · exact .inl (congrArg TlsObject.creates (hown.fresh p hge))

/-- **The threads agree on the native key, if whoever locks the mutex finds it still unset.**  In every
    state of such a run at most one native key has been created; all calls have used it, and a thread
    reads what it stored last. -/
theorem solarisTls_agreement {xs : List (ι × TlsCall)} (hrun : run tlsStep (tlsStart : Config ι _ _) xs = some c)
    (hok : Along tlsStep LocksUnset tlsStart xs) :
    (∀ p ∈ c.shared.tls.returned, p = c.shared.tls.key ∧ p ≠ NULL) ∧
    (∃ q, ∀ p, p ≠ NULL → (c.shared.tls.objects p).creates ≤ if p = q then 1 else 0) ∧
    (c.shared.tls.key ≠ NULL →
      ∀ p, p ≠ NULL → (c.shared.tls.objects p).creates = if p = c.shared.tls.key then 1 else 0) ∧
    ∀ g ∈ c.shared.tls.got, g.1 = g.2 := by
  have hinv : TlsInv c := run_invariant_along (fun _ _ _ _ _ h hx hstep => h.step hx hstep) tlsInv_start hok hrun
  refine ⟨fun p hp => ?_, ?_, fun hkey p hp => ?_, hinv.values.got⟩
  · obtain ⟨rfl, hkey⟩ := hinv.values.returned p hp
    exact ⟨rfl, hkey⟩
  · by_cases hcreated : ∃ q, q ≠ NULL ∧ 0 < (c.shared.tls.objects q).creates
    · obtain ⟨q, hq, hpos⟩ := hcreated
      refine ⟨q, fun p hp => ?_⟩
      rcases hinv.creates_cases hp with h0 | ⟨hkey, h1⟩ | ⟨hkey, h1, i, o, hi, hmutex⟩
      · rw [h0]
        exact Nat.zero_le _
      · rcases hinv.creates_cases hq with h0 | ⟨hkey', -⟩ | ⟨hkey', -⟩
        · exact absurd h0 (Nat.ne_of_gt hpos)
        · rw [if_pos (hkey.trans hkey'.symm), h1]
        · exact absurd (hkey.trans hkey') hp
      · rcases hinv.creates_cases hq with h0 | ⟨hkey', -⟩ | ⟨-, -, j, o', hj, hmutex'⟩
        · exact absurd h0 (Nat.ne_of_gt hpos)
        · exact absurd (hkey'.trans hkey) hq
        · obtain rfl : i = j := Option.some.inj (hmutex.symm.trans hmutex')
          rw [hi] at hj
          cases hj
          rw [if_pos rfl, h1]
    · refine ⟨NULL, fun p hp => ?_⟩
      rw [Nat.le_zero.1 (Nat.le_of_not_lt fun hpos => hcreated ⟨p, hp, hpos⟩)]
      exact Nat.zero_le _
  · rcases hinv.creates_cases hp with h0 | ⟨hp', h1⟩ | ⟨hnull, -⟩
    · rw [if_neg, h0]
      rintro rfl
      rw [hinv.ownership.key_object hkey] at h0
      cases h0
    · rw [if_pos hp', h1]
    · exact absurd hnull hkey

/-- The second thread calls when the first one is done. -/
theorem solarisTls_agreement_turns : ∃ c, Reaches tlsStep (tlsStart : Config Bool _ _) c ∧
    c.shared.tls.returned = [1, 1] ∧ (∀ p ∈ c.shared.tls.returned, p = c.shared.tls.key ∧ p ≠ NULL) ∧
    ∀ g ∈ c.shared.tls.got, g.1 = g.2 := by
  let xs : List (Bool × TlsCall) := List.replicate 8 (false, .setLocal 7) ++ List.replicate 3 (true, .getLocal)
  have hok : Along tlsStep LocksUnset tlsStart xs := by decide
  have hrun : (run tlsStep tlsStart xs).map (fun c => c.shared.tls.returned) = some [1, 1] := by decide
  obtain ⟨c, hc, hreturned⟩ := Option.map_eq_some_iff.1 hrun
  obtain ⟨hkey, -, -, hgot⟩ := solarisTls_agreement hc hok
  exact ⟨c, ⟨xs, hc⟩, hreturned, hkey, hgot⟩

/-- Both threads find the key unset.  The second one replaces the native key under which the first has
    stored a value, and the first does not find the value again. -/
theorem solarisTls_replaced : ∃ c, Reaches tlsStep (tlsStart : Config Bool _ _) c ∧
    c.shared.tls.returned = [2, 2, 1] ∧ (c.shared.tls.objects 1).creates = 1 ∧
    (c.shared.tls.objects 2).creates = 1 ∧ c.shared.tls.got = [(NULL, 7), (NULL, NULL)] := by
  let xs : List (Bool × TlsCall) := List.replicate 2 (false, .setLocal 7) ++ List.replicate 2 (true, .getLocal) ++
    List.replicate 6 (false, .setLocal 7) ++ List.replicate 6 (true, .getLocal) ++ List.replicate 3 (false,
      .getLocal)
  have hrun : (run tlsStep tlsStart xs).map (fun c => (c.shared.tls.returned, (c.shared.tls.objects 1).creates,
      (c.shared.tls.objects 2).creates, c.shared.tls.got)) =
      some ([2, 2, 1], 1, 1, [(NULL, 7), (NULL, NULL)]) := by
    decide
  obtain ⟨c, hc, hfacts⟩ := Option.map_eq_some_iff.1 hrun
  simp only [Prod.mk.injEq] at hfacts
  exact ⟨c, ⟨xs, hc⟩, hfacts⟩

end Solaris

end Plibsys
