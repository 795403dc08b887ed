/-
  The native key of a `PUThreadKey` on POSIX: created lazily by whoever needs it first.

  Several threads may create a native key; the first exchange with `NULL` decides which one stays.
-/
import Plibsys.Thread.TlsKey

namespace Plibsys

open Interleaving

namespace Posix

/-- Where a thread is in `pp_uthread_get_tls_key`, with its `thread_key`. -/
inductive TlsPlace where
  | get
  | malloc
  | create (p : ppointer)
  | exchange (p : ppointer)
  | delete (p : ppointer)
  | free (p : ppointer)
  | reread
  | done (p : ppointer)
  deriving DecidableEq, Repr

variable {ι : Type} [DecidableEq ι]

/-- One atomic step of `pp_uthread_get_tls_key`. -/
def ppUthreadGetTlsKey (s : TlsState ι) : TlsPlace → TlsState ι × TlsPlace
  | .get => (s, if s.key = NULL then .malloc else .done s.key)
  | .malloc => (s.malloc, .create s.nextObject)
  | .create p => (s.keyCreate p, .exchange p)
  | .exchange p => if s.key = NULL then (s.setKey p, .done p) else (s, .delete p)
  | .delete p => (s.keyDelete p, .free p)
  | .free p => (s.free p, .reread)
  | .reread => (s, .done s.key)
  | .done p => (s, .done p)

/-- A thread is outside of the calls (`none`), or it makes a call. -/
def tlsStep (i : ι) (call : TlsCall) (s : TlsState ι) :
    Option (TlsCall × TlsPlace) → Option (TlsState ι × Option (TlsCall × TlsPlace))
  | none => some (s, some (call, .get))
  | some (call, .done p) => some (s.use i p call, none)
  | some (call, place) =>
    let (s, place) := ppUthreadGetTlsKey s place
    some (s, some (call, place))

/-- The object that a thread has not yet given away, and what happened to it. -/
def TlsPlace.object : TlsPlace → Option (ppointer × TlsObject)
  | .create p => some (p, ⟨0, 0, 0⟩)
  | .exchange p => some (p, ⟨1, 0, 0⟩)
  | .delete p => some (p, ⟨1, 0, 0⟩)
  | .free p => some (p, ⟨1, 1, 0⟩)
  | _ => none

def owned (l : Option (TlsCall × TlsPlace)) : Option (ppointer × TlsObject) := l.bind fun x => x.2.object

/-- What a thread knows of the key. -/
def TlsPlace.Knows (key : ppointer) : TlsPlace → Prop
  | .delete _ | .free _ | .reread => key ≠ NULL
  | .done p => p = key ∧ key ≠ NULL
  | _ => True

/-- The objects are owned as the places of the threads say. -/
structure TlsInv (c : Config ι (TlsState ι) (Option (TlsCall × TlsPlace))) : Prop where
  ownership : Ownership c.shared fun i => owned (c.loc i)
  values : ValuesKept c.shared
  knows : ∀ i call place, c.loc i = some (call, place) → place.Knows c.shared.key

variable {c c' : Config ι (TlsState ι) (Option (TlsCall × TlsPlace))} {i : ι} {call a : TlsCall} {place : TlsPlace}
  {s : TlsState ι} {l : Option (TlsCall × TlsPlace)}

/-- What a thread knows of a key stays true when the key is set for the first time. -/
theorem knows_set (h : ∀ j call place, c.loc j = some (call, place) → place.Knows c.shared.key)
    (hkey : s.key = c.shared.key ∨ c.shared.key = NULL)
    (hl : ∀ call place, l = some (call, place) → place.Knows s.key) (j : ι) (call : TlsCall) (place : TlsPlace)
    (hj : (c.set i s l).loc j = some (call, place)) : place.Knows s.key := by
  by_cases hji : j = i
  · subst hji
    rw [loc_set_self] at hj
    exact hl call place hj
  · rw [loc_set_of_ne hji] at hj
    have hknows := h j call place hj
    rcases hkey with hkey | hkey
    · rwa [hkey]
    · rw [hkey] at hknows
      cases place <;> first | trivial | exact absurd rfl hknows | exact absurd rfl hknows.2

theorem TlsInv.step (h : TlsInv c) (hstep : tlsStep i a c.shared (c.loc i) = some (s, l)) :
    TlsInv (c.set i s l) := by
  obtain ⟨hown, hvalues, hknows⟩ := h
  -- a step that leaves the objects alone
  have hsame : ∀ {s' l'}, owned l' = owned (c.loc i) → s'.key = c.shared.key →
      s'.nextObject = c.shared.nextObject → s'.objects = c.shared.objects →
      Ownership s' fun j => owned ((c.set i s' l').loc j) := by
    intro s' l' hl' hkey hnext hobjects
    rw [map_loc_set, hl', Function.update_eq_self i fun j => owned (c.loc j)]
    exact hown.congr hkey hnext hobjects
  -- a step that changes the object of the thread
  have hupdate : ∀ {p o} (f : TlsObject → TlsObject) {l'},
    owned (c.loc i) = some (p, o) → owned l' = some (p, f o) →
      Ownership (c.shared.update p f) fun j => owned ((c.set i (c.shared.update p f) l').loc j) := by
    intro p o f l' hi hl'
    rw [map_loc_set, hl']
    exact hown.update hi f
  cases hl : c.loc i with
  | none =>
    rw [hl] at hstep hsame
    cases hstep
    exact ⟨hsame rfl rfl rfl rfl, hvalues, knows_set hknows (.inl rfl) (by rintro _ _ ⟨⟩; trivial)⟩
  | some x =>
    obtain ⟨call, place⟩ := x
    have hplace := hknows i call place hl
    rw [hl] at hstep hsame hupdate
    cases place with
    | done p =>
      cases hstep
      exact ⟨hsame rfl (TlsState.use_key ..) (TlsState.use_nextObject ..) (TlsState.use_objects ..),
        hvalues.use i hplace.1 hplace.2 call, knows_set hknows (.inl (TlsState.use_key ..)) nofun⟩
    | get =>
      cases hstep
      by_cases hkey : c.shared.key = NULL
      · refine ⟨hsame ?_ rfl rfl rfl, hvalues, knows_set hknows (.inl rfl) ?_⟩
        · rw [if_pos hkey]
          rfl
        · rintro _ _ ⟨⟩
          rw [if_pos hkey]
          trivial
      · refine ⟨hsame ?_ rfl rfl rfl, hvalues, knows_set hknows (.inl rfl) ?_⟩
        · rw [if_neg hkey]
          rfl
        · rintro _ _ ⟨⟩
          rw [if_neg hkey]
          exact ⟨rfl, hkey⟩
    | malloc =>
      cases hstep
      refine ⟨?_, hvalues.congr rfl rfl rfl rfl rfl, knows_set hknows (.inl rfl) (by rintro _ _ ⟨⟩; trivial)⟩
      rw [map_loc_set]
      refine hown.malloc ?_
      rw [hl]
      rfl
    | create p =>
      cases hstep
      exact ⟨hupdate (fun o => { o with creates := o.creates + 1 }) rfl rfl, hvalues.congr rfl rfl rfl rfl rfl,
        knows_set hknows (.inl rfl) (by rintro _ _ ⟨⟩; trivial)⟩
    | exchange p =>
      have hi : owned (c.loc i) = some (p, ⟨1, 0, 0⟩) := by
        rw [hl]
        rfl
      by_cases hkey : c.shared.key = NULL
      · simp only [tlsStep, ppUthreadGetTlsKey, if_pos hkey] at hstep
        cases hstep
        have hp : p ≠ NULL := Nat.ne_of_gt (hown.owned i p _ hi).1
        refine ⟨?_, hvalues.publish hkey hp, knows_set hknows (.inr hkey) (by rintro _ _ ⟨⟩; exact ⟨rfl, hp⟩)⟩
        rw [map_loc_set]
        exact hown.publish hi hkey
      · simp only [tlsStep, ppUthreadGetTlsKey, if_neg hkey] at hstep
        cases hstep
        exact ⟨hsame rfl rfl rfl rfl, hvalues, knows_set hknows (.inl rfl) (by rintro _ _ ⟨⟩; exact hkey)⟩
    | delete p =>
      cases hstep
      exact ⟨hupdate (fun o => { o with deletes := o.deletes + 1 }) rfl rfl, hvalues.congr rfl rfl rfl rfl rfl,
        knows_set hknows (.inl rfl) (by rintro _ _ ⟨⟩; exact hplace)⟩
    | free p =>
      cases hstep
      refine ⟨?_, hvalues.congr rfl rfl rfl rfl rfl, knows_set hknows (.inl rfl) (by rintro _ _ ⟨⟩; exact hplace)⟩
      have hi : owned (c.loc i) = some (p, ⟨1, 1, 0⟩) := by
        rw [hl]
        rfl
      have hfreed := (hown.update hi fun o => { o with frees := o.frees + 1 }).forget (Function.update_self ..)
      rw [Function.update_idem] at hfreed
      rw [map_loc_set]
      exact hfreed
    | reread =>
      cases hstep
      exact ⟨hsame rfl rfl rfl rfl, hvalues, knows_set hknows (.inl rfl) (by rintro _ _ ⟨⟩; exact ⟨rfl, hplace⟩)⟩

/-- No thread is in a call yet. -/
def tlsStart : Config ι (TlsState ι) (Option (TlsCall × TlsPlace)) := ⟨tlsNew, fun _ => none⟩

omit [DecidableEq ι] in
theorem tlsInv_start : TlsInv (tlsStart : Config ι _ _) := ⟨ownership_new, valuesKept_new, fun _ _ _ => nofun⟩

theorem TlsInv.reaches (h : TlsInv c) (hreach : Reaches tlsStep c c') : TlsInv c' :=
  hreach.invariant (fun _ _ _ _ _ hc hstep => hc.step hstep) h

theorem tlsStep_key (hkey : c.shared.key ≠ NULL) (hstep : tlsStep i a c.shared (c.loc i) = some (s, l)) :
    s.key = c.shared.key := by
  cases hl : c.loc i with
  | none =>
    rw [hl] at hstep
    cases hstep
    rfl
  | some x =>
    obtain ⟨call, place⟩ := x
    rw [hl] at hstep
    cases place with
    | done p =>
      cases hstep
      exact TlsState.use_key ..
    | exchange p =>
      simp only [tlsStep, ppUthreadGetTlsKey, if_neg hkey] at hstep
      cases hstep
      rfl
    | _ =>
      cases hstep
      rfl

/-- The key is set once. -/
theorem key_stable (hkey : c.shared.key ≠ NULL) (hreach : Reaches tlsStep c c') :
    c'.shared.key = c.shared.key := by
  refine hreach.invariant (I := fun d => d.shared.key = c.shared.key) (fun d j a s l hd hstep => ?_) rfl
  rw [← hd] at hkey ⊢
  exact tlsStep_key hkey hstep

/-- **The threads agree on the native key.**  In every state that is reached from an empty `PUThreadKey`,
    all calls have used one native key, which is never replaced or deleted; every other one that was
    created is deleted and freed once when the thread that created it has left its clean-up, and not
    more often before. -/
theorem posixTls_agreement (hreach : Reaches tlsStep (tlsStart : Config ι _ _) c) :
    (∀ p ∈ c.shared.returned, p = c.shared.key ∧ p ≠ NULL) ∧
    (c.shared.key ≠ NULL → c.shared.objects c.shared.key = ⟨1, 0, 0⟩ ∧
      ∀ c', Reaches tlsStep c c' → c'.shared.key = c.shared.key) ∧
    (∀ p, p ≠ NULL → p ≠ c.shared.key → c.shared.objects p = ⟨0, 0, 0⟩ ∨ c.shared.objects p = ⟨1, 1, 1⟩ ∨
      ∃ i, owned (c.loc i) = some (p, c.shared.objects p)) ∧
    ∀ g ∈ c.shared.got, g.1 = g.2 := by
  obtain ⟨hown, hvalues, -⟩ := tlsInv_start.reaches hreach
  refine ⟨fun p hp => ?_, fun hkey => ⟨hown.key_object hkey, fun c' => key_stable hkey⟩, fun p h0 hp => ?_,
    hvalues.got⟩
  · obtain ⟨rfl, hkey⟩ := hvalues.returned p hp
    exact ⟨rfl, hkey⟩
  · by_cases howned : ∃ i o, owned (c.loc i) = some (p, o)
    · obtain ⟨i, o, hi⟩ := howned
      refine .inr (.inr ⟨i, ?_⟩)
      rw [(hown.owned i p o hi).2.2.2, hi]
    · rcases Nat.lt_or_ge p c.shared.nextObject with hlt | hge
      · exact .inr (.inl (hown.others p (Nat.pos_of_ne_zero h0) hlt hp fun i o hi => howned ⟨i, o, hi⟩))
      · exact .inl (hown.fresh p hge)

/-- Two threads create a native key each; the second one gives its own back. -/
theorem posixTls_agreement_race : ∃ c, Reaches tlsStep (tlsStart : Config Bool _ _) c ∧
    c.shared.returned = [1, 1] ∧
    c.shared.objects 2 = ⟨1, 1, 1⟩ ∧ c.shared.key ≠ NULL ∧ c.shared.objects c.shared.key = ⟨1, 0, 0⟩ ∧
    (∀ p ∈ c.shared.returned, p = c.shared.key) ∧ ∀ g ∈ c.shared.got, g.1 = g.2 := by
  let xs : List (Bool × TlsCall) := List.replicate 4 (false, .setLocal 7) ++ List.replicate 4 (true, .getLocal) ++
    List.replicate 2 (false, .setLocal 7) ++ List.replicate 5 (true, .getLocal)
  have hrun : (run tlsStep tlsStart xs).map (fun c => (c.shared.returned, c.shared.objects 2)) =
      some ([1, 1], ⟨1, 1, 1⟩) := by
    decide
  obtain ⟨c, hc, hfacts⟩ := Option.map_eq_some_iff.1 hrun
  obtain ⟨hlist, hobject⟩ := Prod.mk.inj hfacts
  have hreach : Reaches tlsStep tlsStart c := ⟨xs, hc⟩
  obtain ⟨hreturned, hkey, -, hgot⟩ := posixTls_agreement hreach
  obtain ⟨hone, hnull⟩ := hreturned 1 (hlist ▸ .head _)
  have hset : c.shared.key ≠ NULL := hone ▸ hnull
  exact ⟨c, hreach, hlist, hobject, hset, (hkey hset).1, fun p hp => (hreturned p hp).1, hgot⟩

end Posix

end Plibsys
