/-
  Operations on a shared object, each in a critical section of one lock.

  A section is a program of single accesses to the object; threads take turns after every access.
  A thread that finds the lock taken tries again, or it gives up when its operation is one that
  only tries.  Seen from outside, every operation happens at one moment.
-/
import Plibsys.Lib.Prog
import Plibsys.Lib.Simulation

namespace Critical

open Interleaving Programs

/-- A lock: what an attempt to take it and its release do to its state. -/
structure Lock (K : Type) where
  free : K
  taken : K
  tryLock : K → Option K
  unlock : K → K
  tryLock_free : tryLock free = some taken
  tryLock_taken : tryLock taken = none
  unlock_taken : unlock taken = free

/-- The lock and the object that it guards. -/
structure Guarded (K V : Type) where
  lock : K
  value : V

/-- Where a thread is: outside, at the lock, in the section with the rest of its program, or behind it. -/
inductive Place (Op Result Call : Type) (Reply : Call → Type) where
  | idle
  | entering (op : Op)
  | inside (op : Op) (rest : Prog Call Reply Result)
  | leaving (r : Result)

/-- Where a thread is when its operation happens at one moment. -/
inductive Outline (Op Result : Type) where
  | idle
  | called (op : Op)
  | done (r : Result)

inductive Move (Op Result : Type) where
  | call (op : Op)
  | work
  | refuse
  | ret (r : Result)

/-- What is seen from outside: a thread calls an operation, and it returns with a result. -/
inductive Event (Op Result : Type) where
  | call (op : Op)
  | ret (r : Result)
  deriving DecidableEq

variable {ι K V Op Result Call : Type} {Reply : Call → Type}

def Move.event : Move Op Result → Option (Event Op Result)
  | .call op => some (.call op)
  | .ret r => some (.ret r)
  | .work | .refuse => none

/-- The operations that a history calls. -/
def calls (h : List (ι × Event Op Result)) : List Op :=
  h.filterMap fun x => match x.2 with
    | .call op => some op
    | .ret _ => none

/-- The results that a history returns with. -/
def returns (h : List (ι × Event Op Result)) : List Result :=
  h.filterMap fun x => match x.2 with
    | .call _ => none
    | .ret r => some r

theorem calls_append (h h' : List (ι × Event Op Result)) : calls (h ++ h') = calls h ++ calls h' :=
  List.filterMap_append ..

theorem returns_append (h h' : List (ι × Event Op Result)) : returns (h ++ h') = returns h ++ returns h' :=
  List.filterMap_append ..

def Place.Inside : Place Op Result Call Reply → Prop
  | .inside _ _ => True
  | .idle | .entering _ | .leaving _ => False

def Place.outline : Place Op Result Call Reply → Outline Op Result
  | .idle => .idle
  | .entering op | .inside op _ => .called op
  | .leaving r => .done r

section
variable [DecidableEq Result] (lock : Lock K) (sys : (c : Call) → V → Reply c × V)
  (body : Op → Prog Call Reply Result) (refused : Op → Option Result)

/-- A step of a thread; `refused op` is the result of an operation that gives up at the lock. -/
def step (_ : ι) : Move Op Result → Guarded K V → Place Op Result Call Reply →
    Option (Guarded K V × Place Op Result Call Reply)
  | .call op, s, .idle => some (s, .entering op)
  | .work, s, .entering op =>
    match lock.tryLock s.lock, refused op with
    | some k, _ => some ({ s with lock := k }, .inside op (body op))
    | none, some r => some (s, .leaving r)
    | none, none => some (s, .entering op)
  | .work, s, .inside op (.call c k) =>
      some ({ s with value := (sys c s.value).2 }, .inside op (k (sys c s.value).1))
  | .work, s, .inside _ (.ret r) => some ({ s with lock := lock.unlock s.lock }, .leaving r)
  | .ret r, s, .leaving r' => if r = r' then some (s, .idle) else none
  | _, _, _ => none

/-- A step of a thread whose operation happens at one moment. -/
def atomicStep (apply : Op → V → Option (Result × V)) (refused : Op → Option Result) (_ : ι) :
    Move Op Result → V → Outline Op Result → Option (V × Outline Op Result)
  | .call op, v, .idle => some (v, .called op)
  | .work, v, .called op => (apply op v).map fun r => (r.2, .done r.1)
  | .refuse, v, .called op => (refused op).map fun r => (v, .done r)
  | .ret r, v, .done r' => if r = r' then some (v, .idle) else none
  | _, _, _ => none

/-- All threads are outside and the lock is free. -/
def start (v : V) : Config ι (Guarded K V) (Place Op Result Call Reply) := ⟨⟨lock.free, v⟩, fun _ => .idle⟩

def atomicStart (v : V) : Config ι V (Outline Op Result) := ⟨v, fun _ => .idle⟩

/-- The lock is free and nobody is in the section, or it is taken and one thread is: for the others its operation
    has not happened yet, and it will have when the rest of its program has run. -/
inductive Guards (c : Config ι (Guarded K V) (Place Op Result Call Reply)) (v : V) : Prop where
  | free (hlock : c.shared.lock = lock.free) (hvalue : c.shared.value = v) (hout : ∀ i, ¬ (c.loc i).Inside)
  | taken (i : ι) (op : Op) (rest : Prog Call Reply Result) (hlock : c.shared.lock = lock.taken)
    (hi : c.loc i = .inside op rest) (hrest : (body op).exec sys v = rest.exec sys c.shared.value)
    (hout : ∀ j, j ≠ i → ¬ (c.loc j).Inside)

/-- The threads are at the same places, and the lock guards the object. -/
structure Follows (c : Config ι (Guarded K V) (Place Op Result Call Reply)) (d : Config ι V (Outline Op Result)) :
    Prop where
  outline : ∀ i, d.loc i = (c.loc i).outline
  guards : Guards lock sys body c d.shared

end

variable {lock : Lock K} {sys : (c : Call) → V → Reply c × V}
  {body : Op → Prog Call Reply Result} {refused : Op → Option Result} {i j : ι} {v : V}
  {c : Config ι (Guarded K V) (Place Op Result Call Reply)} {d : Config ι V (Outline Op Result)}
  {s : Guarded K V} {l : Place Op Result Call Reply} {op : Op} {rest : Prog Call Reply Result}

theorem Guards.start : Guards lock sys body (start (ι := ι) lock v) v := .free rfl rfl fun _ h => h

theorem Follows.start : Follows lock sys body (start (ι := ι) lock v) (atomicStart v) := ⟨fun _ => rfl, .start⟩

/-- A thread in the section is the only one, and it holds the lock. -/
theorem Guards.inside (h : Guards lock sys body c v) (hi : c.loc i = .inside op rest) :
    c.shared.lock = lock.taken ∧ (body op).exec sys v = rest.exec sys c.shared.value ∧
      ∀ j, j ≠ i → ¬ (c.loc j).Inside := by
  cases h with
  | free hlock hvalue hout =>
    have hin := hout i
    rw [hi] at hin
    exact absurd trivial hin
  | taken i' op' rest' hlock hi' hrest hout =>
    obtain rfl : i' = i := by
      by_contra hne
      have hin := hout i fun he => hne he.symm
      rw [hi] at hin
      exact hin trivial
    rw [hi] at hi'
    cases hi'
    exact ⟨hlock, hrest, hout⟩

/-- **Mutual exclusion.** -/
theorem Guards.exclusive (h : Guards lock sys body c v) (hi : (c.loc i).Inside) (hj : (c.loc j).Inside) :
    i = j := by
  rcases hloc : c.loc i with _ | op | ⟨op, rest⟩ | r
  case inside =>
    by_contra hne
    exact (h.inside hloc).2.2 j (fun he => hne he.symm) hj
  all_goals
    rw [hloc] at hi
    exact absurd hi id

/-- Nobody is in the section: everything that has been done has happened. -/
theorem Guards.quiet (h : Guards lock sys body c v) (hout : ∀ i, ¬ (c.loc i).Inside) : c.shared.value = v := by
  cases h with
  | free _ hvalue => exact hvalue
  | taken i op rest _ hi =>
    have hin := hout i
    rw [hi] at hin
    exact absurd trivial hin

section
variable [DecidableEq ι]

theorem not_inside_set (hl : ¬ l.Inside) (h : ∀ j, j ≠ i → ¬ (c.loc j).Inside) (j : ι) :
    ¬ ((c.set i s l).loc j).Inside :=
  forall_set (P := fun _ (l : Place Op Result Call Reply) => ¬ l.Inside) hl h j

/-- A step outside of the section. -/
theorem Guards.outside (h : Guards lock sys body c v) (hi : ¬ (c.loc i).Inside) (hl : ¬ l.Inside) :
    Guards lock sys body (c.set i c.shared l) v := by
  cases h with
  | free hlock hvalue hout => exact .free hlock hvalue (not_inside_set hl fun j _ => hout j)
  | taken i' op rest hlock hi' hrest hout =>
    have hne : i' ≠ i := by
      rintro rfl
      rw [hi'] at hi
      exact hi trivial
    refine .taken i' op rest hlock ?_ hrest fun j hj => ?_
    · rw [loc_set_of_ne hne, hi']
    · exact forall_set (P := fun j (l : Place Op Result Call Reply) => j ≠ i' → ¬ l.Inside) (fun _ => hl)
        (fun j _ => hout j) j hj

/-- The lock has been taken. -/
theorem Guards.enter (h : Guards lock sys body c v) {k : K} (hlock : lock.tryLock c.shared.lock = some k)
    (op : Op) :
    Guards lock sys body (c.set i { c.shared with lock := k } (.inside op (body op))) v := by
  cases h with
  | free hfree hvalue hout =>
    rw [hfree, lock.tryLock_free] at hlock
    cases hlock
    refine .taken i op (body op) rfl loc_set_self ?_ fun j hj => ?_
    · rw [← hvalue]
      rfl
    · rw [loc_set_of_ne hj]
      exact hout j
  | taken _ _ _ htaken =>
    rw [htaken, lock.tryLock_taken] at hlock
    cases hlock

/-- The thread in the section has made an access. -/
theorem Guards.access (h : Guards lock sys body c v) {call : Call} {k : Reply call → Prog Call Reply Result}
    (hi : c.loc i = .inside op (.call call k)) :
    Guards lock sys body
      (c.set i { c.shared with value := (sys call c.shared.value).2 }
        (.inside op (k (sys call c.shared.value).1))) v := by
  obtain ⟨hlock, hrest, hout⟩ := h.inside hi
  refine .taken i op _ hlock loc_set_self hrest fun j hj => ?_
  rw [loc_set_of_ne hj]
  exact hout j hj

/-- The thread has left the section: its operation has happened. -/
theorem Guards.leave (h : Guards lock sys body c v) {r : Result} (hi : c.loc i = .inside op (.ret r)) :
    (body op).exec sys v = some (r, c.shared.value) ∧
      Guards lock sys body (c.set i { c.shared with lock := lock.unlock c.shared.lock } (.leaving r))
        c.shared.value := by
  obtain ⟨hlock, hrest, hout⟩ := h.inside hi
  refine ⟨hrest, .free ?_ rfl (not_inside_set id hout)⟩
  rw [shared_set, hlock, lock.unlock_taken]

/-- The outlines after a step. -/
theorem Follows.set (h : Follows lock sys body c d) {v : V} (hguards : Guards lock sys body (c.set i s l) v) :
    Follows lock sys body (c.set i s l) (d.set i v l.outline) := by
  refine ⟨fun j => ?_, hguards⟩
  by_cases hj : j = i
  · subst hj
    rw [loc_set_self, loc_set_self]
  · rw [loc_set_of_ne hj, loc_set_of_ne hj, h.outline j]

/-- The step is not seen. -/
theorem Follows.set_same (h : Follows lock sys body c d) (hl : l.outline = (c.loc i).outline)
    (hguards : Guards lock sys body (c.set i s l) d.shared) : Follows lock sys body (c.set i s l) d := by
  have hset := h.set hguards
  rwa [hl, ← h.outline i, Interleaving.set_same] at hset

variable [DecidableEq Result]

variable (lock sys body refused) in
/-- **Every operation happens at one moment**, before it gives the lock back. -/
theorem simulates :
    Simulates (ι := ι) (step lock sys body refused) (atomicStep (fun op v => (body op).exec sys v) refused)
      Move.event Move.event (Follows lock sys body) := by
  intro c d i a s l hfollows hstep
  have hloc := hfollows.outline i
  rcases hplace : c.loc i with _ | op | ⟨op, _ | _ | ⟨call, k⟩⟩ | r <;> rw [hplace] at hstep hloc <;>
    cases a <;> simp only [step, reduceCtorEq, Option.some.injEq, Prod.mk.injEq] at hstep
  case idle.call op =>
    obtain ⟨rfl, rfl⟩ := hstep
    have hatomic : atomicStep (fun op v => (body op).exec sys v) refused i (.call op) d.shared (d.loc i) =
        some (d.shared, .called op) := by rw [hloc]; rfl
    refine ⟨_, _, run_of_step hatomic, rfl, hfollows.set (hfollows.guards.outside ?_ id)⟩
    rw [hplace]
    exact id
  case entering.work =>
    rcases hlock : lock.tryLock c.shared.lock with _ | k
    · rcases hrefused : refused op with _ | r
      · simp only [hlock, hrefused, Option.some.injEq, Prod.mk.injEq] at hstep
        obtain ⟨rfl, rfl⟩ := hstep
        refine ⟨[], d, rfl, rfl, hfollows.set_same (by rw [hplace]) (hfollows.guards.outside ?_ id)⟩
        rw [hplace]
        exact id
      · simp only [hlock, hrefused, Option.some.injEq, Prod.mk.injEq] at hstep
        obtain ⟨rfl, rfl⟩ := hstep
        have hatomic : atomicStep (fun op v => (body op).exec sys v) refused i .refuse d.shared (d.loc i) =
            some (d.shared, .done r) := by
          rw [hloc, Place.outline, atomicStep, hrefused]
          rfl
        refine ⟨_, _, run_of_step hatomic, rfl, hfollows.set (hfollows.guards.outside ?_ id)⟩
        rw [hplace]
        exact id
    · simp only [hlock, Option.some.injEq, Prod.mk.injEq] at hstep
      obtain ⟨rfl, rfl⟩ := hstep
      exact ⟨[], d, rfl, rfl, hfollows.set_same (by rw [hplace]; rfl) (hfollows.guards.enter hlock op)⟩
  case inside.ret.work r =>
    obtain ⟨rfl, rfl⟩ := hstep
    obtain ⟨hexec, hguards⟩ := hfollows.guards.leave hplace
    have hatomic : atomicStep (fun op v => (body op).exec sys v) refused i .work d.shared (d.loc i) =
        some (c.shared.value, .done r) := by
      rw [hloc, Place.outline, atomicStep, hexec]
      rfl
    exact ⟨_, _, run_of_step hatomic, rfl, hfollows.set hguards⟩
  case inside.call.work =>
    obtain ⟨rfl, rfl⟩ := hstep
    exact ⟨[], d, rfl, rfl, hfollows.set_same (by rw [hplace]; rfl) (hfollows.guards.access hplace)⟩
  case leaving.ret r' =>
    split_ifs at hstep with hr
    cases hstep
    have hatomic : atomicStep (fun op v => (body op).exec sys v) refused i (.ret r') d.shared (d.loc i) =
        some (d.shared, .idle) := by
      rw [hloc, Place.outline, atomicStep, if_pos hr]
    refine ⟨_, _, run_of_step hatomic, rfl, hfollows.set (hfollows.guards.outside ?_ id)⟩
    rw [hplace]
    exact id

/-- **Linearizability**: every history is one of operations that happen at one moment. -/
theorem linearizable {xs : List (ι × Move Op Result)}
    (hrun : run (step lock sys body refused) (start lock v) xs = some c) :
    ∃ ys d, run (atomicStep (fun op v => (body op).exec sys v) refused) (atomicStart v) ys = some d ∧
      history Move.event ys = history Move.event xs ∧ Follows lock sys body c d :=
  (simulates lock sys body refused).run .start hrun

end

end Critical
