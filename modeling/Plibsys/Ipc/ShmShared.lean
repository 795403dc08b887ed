/-
  What processes that open one segment at the same time share (POSIX).

  The one who creates the segment asks for a new semaphore.  When an opener has overtaken it and
  created the semaphore, its name is removed: the next opener gets another one.
-/
import Plibsys.Ipc.ShmAlone

namespace Plibsys.Posix

open Programs Registries SysState Prog Interleaving

variable {ι : Type} {pf : Platform} {name : List UInt8} {size : psize} {c : Config ι SysState Opener}
  {s s' : SysState} {l : Opener} {i j : ι} {m : ℕ}

/-- What a call of `p_shm_new` leads to. -/
def ReturnsShared (pf : Platform) (name : List UInt8) (size : psize) (r : Except PError PShm)
    (s : SysState) : Prop :=
  ∀ shm, r = .ok shm → ∃ n m, Shared pf name size shm n m s

/-- A process is on its way to a handle that is shared. -/
def OpenerOk (pf : Platform) (name : List UInt8) (size : psize) (s : SysState) (l : Opener) : Prop :=
  l.prog.Amid sysCall (openers pf name size False) (ReturnsShared pf name size) (s.switch l.own)

/-- The value of the semaphore is 0 while a process has the lock, else 1. -/
structure LockOk (pf : Platform) (name : List UInt8) (c : Config ι SysState Opener) : Prop where
  one : ∀ i j, (c.loc i).locked = true → (c.loc j).locked = true → i = j
  held : ∀ m, Named pf name m c.shared → c.shared.sems.value m = 0 ∨
    c.shared.sems.value m = 1 ∧ ∀ i, (c.loc i).locked = false
  created : c.shared.sems.names (lockKey pf name) = none → ∀ i, (c.loc i).locked = false

/-- The invariant of all processes. -/
structure OpenersOk (pf : Platform) (name : List UInt8) (size : psize) (c : Config ι SysState Opener) : Prop where
  openers : ∀ i, OpenerOk pf name size c.shared (c.loc i)
  lock : LockOk pf name c

theorem OpenerOk.shared (h : OpenerOk pf name size s l) {shm : PShm} (hl : l.handle = some shm) :
    ∃ n m, Shared pf name size shm n m (s.switch l.own) := by
  obtain ⟨own, prog, locked⟩ := l
  rcases prog with (e | shm') | _ | ⟨c, k⟩
  · cases hl
  · cases hl
    exact h _ ((Posix.openers pf name size False).refl _) shm rfl
  · cases hl
  · cases hl

/-- The others see what one process has done. -/
theorem OpenerOk.other (h : OpenerOk pf name size s l) (hgrows : Grows pf name size s s')
    (hint : s'.interrupts = s.interrupts) : OpenerOk pf name size s' l := by
  refine Amid.rely h ⟨⟨rfl, rfl, hint, ?_⟩, False.elim⟩
  exact ⟨hgrows.segment, hgrows.zero, hgrows.unsized, hgrows.sem, hgrows.fresh, hgrows.semNext⟩

variable [DecidableEq ι]

theorem LockOk.call (h : LockOk pf name c) (hkeeps : KeepsLock pf name c.shared s')
    (hgrows : Grows pf name size c.shared s') (hl : l.locked = (c.loc i).locked) :
    LockOk pf name (c.set i s' l) := by
  have hlocked : ∀ j, ((c.set i s' l).loc j).locked = (c.loc j).locked :=
    forall_set (P := fun j (l : Opener) => l.locked = (c.loc j).locked) hl fun _ _ => rfl
  refine ⟨fun j k hj hk => h.one j k ((hlocked j).symm.trans hj) ((hlocked k).symm.trans hk), fun m hm => ?_,
    fun hnone j => ?_⟩
  · rcases hname : c.shared.sems.names (lockKey pf name) with _ | m'
    · exact .inr ⟨hkeeps.free hname m hm, fun j => (hlocked j).trans (h.created hname j)⟩
    · obtain rfl : m' = m := Option.some.inj ((hgrows.sem m' hname).symm.trans hm)
      rw [shared_set, hkeeps.value m' hname]
      exact (h.held m' hname).imp_right fun hfree => ⟨hfree.1, fun j => (hlocked j).trans (hfree.2 j)⟩
  · refine (hlocked j).trans (h.created ?_ j)
    rcases hname : c.shared.sems.names (lockKey pf name) with _ | m'
    · rfl
    · cases (hgrows.sem m' hname).symm.trans hnone

/-- The lock is taken while it is free. -/
theorem LockOk.take (h : LockOk pf name c) (hm : Named pf name m c.shared) (hvalue : c.shared.sems.value m ≠ 0) :
    LockOk pf name (c.set i { c.shared with sems := c.shared.sems.set m (c.shared.sems.value m - 1) } l) := by
  obtain ⟨hone, hfree⟩ := (h.held m hm).resolve_left hvalue
  have hlocked : ∀ j, ((c.set i { c.shared with
      sems := c.shared.sems.set m (c.shared.sems.value m - 1) } l).loc j).locked = true → j = i := by
    intro j hj
    by_contra hne
    rw [loc_set_of_ne hne, hfree j] at hj
    cases hj
  refine ⟨fun j k hj hk => (hlocked j hj).trans (hlocked k hk).symm, fun m' hm' => .inl ?_, fun hnone => ?_⟩
  · cases (show c.shared.sems.names (lockKey pf name) = some m from hm).symm.trans hm'
    refine (Registry.value_set ..).trans ?_
    rw [hone]
  · cases (show c.shared.sems.names (lockKey pf name) = some m from hm).symm.trans hnone

/-- The lock is given back. -/
theorem LockOk.release (h : LockOk pf name c) (hm : Named pf name m c.shared) (hi : (c.loc i).locked = true)
    (hl : l.locked = false) :
    LockOk pf name (c.set i { c.shared with sems := c.shared.sems.set m (c.shared.sems.value m + 1) } l) := by
  have hfree : ∀ j, ((c.set i { c.shared with
      sems := c.shared.sems.set m (c.shared.sems.value m + 1) } l).loc j).locked = false := by
    refine forall_set (P := fun _ (l : Opener) => l.locked = false) hl fun j hj => ?_
    by_contra hlocked
    exact hj (h.one j i (eq_true_of_ne_false hlocked) hi)
  refine ⟨fun j k hj => ?_, fun m' hm' => .inr ⟨?_, hfree⟩, fun _ => hfree⟩
  · cases (hfree j).symm.trans hj
  · cases (show c.shared.sems.names (lockKey pf name) = some m from hm).symm.trans hm'
    refine (Registry.value_set ..).trans ?_
    rcases h.held m hm with hzero | ⟨-, hnot⟩
    · rw [hzero]
    · cases (hnot i).symm.trans hi

/-- The lock changes values only. -/
theorem grows_setSem (m v : ℕ) : Grows pf name size s { s with sems := s.sems.set m v } := by
  refine ⟨fun _ _ => id, fun _ _ => id, fun _ => id, fun _ => id, fun hnone m hm => ?_, Nat.le_refl _⟩
  cases hnone.symm.trans hm

/-- The lock is taken or given back. -/
theorem OpenersOk.lockStep {own : SysState} {shm : PShm} {locked : Bool} (h : OpenersOk pf name size c)
    (hloc : c.loc i = ⟨own, .ret (.ok shm), locked⟩)
    (hstep : openerStep i () c.shared (c.loc i) = some (s', l)) : OpenersOk pf name size (c.set i s' l) := by
  have hi := h.openers i
  rw [hloc] at hi hstep
  obtain ⟨n, m, hshared⟩ := hi.shared rfl
  obtain ⟨sem, hsem, hhdl⟩ := hshared.refers.semaphore
  have hsteps : ∀ v locked', LockOk pf name (c.set i { c.shared with sems := c.shared.sems.set m v }
      ⟨own, .ret (.ok shm), locked'⟩) →
        OpenersOk pf name size (c.set i { c.shared with sems := c.shared.sems.set m v }
      ⟨own, .ret (.ok shm), locked'⟩) := fun v locked' hlock =>
    ⟨forall_set (hi.other (grows_setSem m v) rfl) fun j _ => (h.openers j).other (grows_setSem m v) rfl, hlock⟩
  cases locked with
  | false =>
    by_cases hvalue : c.shared.sems.value m = 0
    · simp [openerStep, pShmLock, hsem, pSemaphoreAcquire, hhdl, hvalue] at hstep
    · obtain ⟨rfl, rfl⟩ : { c.shared with sems := c.shared.sems.set m (c.shared.sems.value m - 1) } = s' ∧
          (⟨own, .ret (.ok shm), true⟩ : Opener) = l := by
        simpa [openerStep, pShmLock, hsem, pSemaphoreAcquire, hhdl, hvalue] using hstep
      exact hsteps _ _ (h.lock.take hshared.named hvalue)
  | true =>
    obtain ⟨rfl, rfl⟩ : { c.shared with sems := c.shared.sems.set m (c.shared.sems.value m + 1) } = s' ∧
        (⟨own, .ret (.ok shm), false⟩ : Opener) = l := by
      simpa [openerStep, pShmUnlock, hsem, pSemaphoreRelease, hhdl] using hstep
    exact hsteps _ _ (h.lock.release hshared.named (by rw [hloc]) rfl)

theorem OpenersOk.step (h : OpenersOk pf name size c) (hkeeps : KeepsSem c (i, ()))
    (hstep : openerStep i () c.shared (c.loc i) = some (s', l)) : OpenersOk pf name size (c.set i s' l) := by
  rcases hloc : c.loc i with ⟨own, (e | shm) | _ | ⟨call, k⟩, locked⟩
  · rw [hloc] at hstep
    cases hstep
  · exact h.lockStep hloc hstep
  · rw [hloc] at hstep
    cases hstep
  · have hok : ¬ IsSemUnlink call := by
      intro hcall
      rw [KeepsSem, hloc] at hkeeps
      cases call <;> first | exact hcall | exact hkeeps
    have hi := h.openers i
    rw [hloc] at hi hstep
    obtain ⟨⟨hgrows, hlock, hint, -⟩, hnext⟩ := Amid.step hi (.inr hok)
    cases hstep
    have hgrows' : Grows pf name size c.shared (sysCall call (c.shared.switch own)).2 :=
      ⟨hgrows.segment, hgrows.zero, hgrows.unsized, hgrows.sem, hgrows.fresh, hgrows.semNext⟩
    refine ⟨forall_set hnext fun j _ => (h.openers j).other hgrows' hint,
      h.lock.call ⟨hlock.value, hlock.free⟩ hgrows' ?_⟩
    rw [hloc]

omit [DecidableEq ι] in
theorem OpenersOk.shareOne (h : OpenersOk pf name size c) : ShareOne c := by
  refine ⟨?_, fun i j => h.lock.one i j⟩
  by_cases hany : ∃ i shm, (c.loc i).handle = some shm
  · obtain ⟨i, shm, hi⟩ := hany
    obtain ⟨n, m, hshared⟩ := (h.openers i).shared hi
    refine ⟨n, m, fun j shm' hj => ?_⟩
    obtain ⟨n', m', hshared'⟩ := (h.openers j).shared hj
    obtain rfl : n = n' := Option.some.inj (hshared.segment.symm.trans hshared'.segment)
    obtain rfl : m = m' := Option.some.inj (hshared.named.symm.trans hshared'.named)
    exact ⟨hshared'.refers.segment, hshared'.refers.semaphore⟩
  · exact ⟨0, 0, fun i shm hi => absurd ⟨i, shm, hi⟩ hany⟩

/-- **One segment and one lock**, for all processes that open an unused name at the same time, in every
    run in which nobody calls `sem_unlink`: that is, the one who creates the segment is not overtaken. -/
theorem shmOpeners_share (pf : Platform) (fuel : ℕ) (name : List UInt8) (size : psize)
    (perms : ι → PShmAccessPerms)
    (s : SysState) (own : ι → SysState) {xs : List (ι × Unit)} (hsize : size ≠ 0) (hint : s.interrupts = [])
    (hshm : s.shms.names (shmKey pf name) = none) (hsem : s.sems.names (lockKey pf name) = none)
    (hkeeps : Along openerStep KeepsSem (openersStart pf (fuel + 1) name size perms s own) xs)
    (hrun : run openerStep (openersStart pf (fuel + 1) name size perms s own) xs = some c) : ShareOne c := by
  have hstart : OpenersOk pf name size (openersStart pf (fuel + 1) name size perms s own) := by
    refine ⟨fun i => amid_pShmNew (perms i) hsize ⟨hint, fun _ n hn => ?_, fun _ _ => hsem⟩, ⟨fun i j hi => ?_,
      fun m hm => ?_, fun _ _ => rfl⟩⟩
    · cases hshm.symm.trans hn
    · cases hi
    · cases hsem.symm.trans hm
  exact (run_invariant_along (fun c i _ s l h hk hs => h.step hk hs) hstart hkeeps hrun).shareOne

/-- Three processes, in a system without objects. -/
def threeOpeners : Config (Fin 3) SysState Opener :=
  openersStart ⟨.little, ['/']⟩ 1 [97] 1 (fun _ => .readwrite) SysState.empty fun _ => SysState.empty

theorem allStart_threeOpeners : AllStart ⟨.little, ['/']⟩ 0 [97] 1 (fun _ => .readwrite) threeOpeners :=
  ⟨fun _ => ⟨_, rfl⟩, rfl, rfl, rfl⟩

/-- Two of the processes call in turn. -/
theorem shmOpeners_share_turns : ∃ xs c, run openerStep threeOpeners xs = some c ∧
    (∃ shm, (c.loc 0).handle = some shm) ∧ (∃ shm, (c.loc 1).handle = some shm) ∧ ShareOne c := by
  obtain ⟨xs, c, hrun, halong, h₀, h₁⟩ :=
    goesOn_turns (i := 0) (j := 1) allStart_threeOpeners (by decide) (by decide)
    (by decide)
  exact ⟨xs, c, hrun, h₀, h₁, shmOpeners_share ⟨.little, ['/']⟩ 0 [97] 1 (fun _ => .readwrite) SysState.empty
    (fun _ => SysState.empty) (by decide) rfl rfl rfl halong hrun⟩

/-- The creator is overtaken by one process, and removes the name of the semaphore before another one comes. -/
theorem shmOpeners_differ : ∃ xs c, run openerStep threeOpeners xs = some c ∧ ¬ ShareOne c :=
  goesOn_overtaken (i := 0) (j := 1) (k := 2) allStart_threeOpeners (by decide) (by decide) (by decide) (by decide)
    (by decide)

end Plibsys.Posix
