/-
  Processes that call `p_shm_new` in turn (POSIX), and one that is overtaken by another.
-/
import Plibsys.Ipc.ShmAmidNew

namespace Plibsys.Posix

open Programs Registries SysState Prog Interleaving

variable {ι : Type} [DecidableEq ι] {pf : Platform} {name : List UInt8} {size : psize} {fuel : ℕ}
  {c : Config ι SysState Opener} {s s' : SysState} {i : ι} {own : SysState}

/-- The process `i` has gone on, and is about to do `p` in the state `s`; the others wait. -/
structure GoesOn (c c' : Config ι SysState Opener) (i : ι) (p : SysM (Except PError PShm)) (s : SysState) :
    Prop where
  loc : ∃ own, c'.loc i = ⟨own, p, false⟩ ∧ c'.shared.switch own = s
  others : ∀ j, j ≠ i → c'.loc j = c.loc j

/-- A process runs alone. -/
theorem goesOn_steps {P : SysCall → Prop} {p p' : SysM (Except PError PShm)} (h : Steps sysCall P p s p' s')
    (hloc : c.loc i = ⟨own, p, false⟩) (hs : c.shared.switch own = s) :
    ∃ xs c', run openerStep c xs = some c' ∧ GoesOn c c' i p' s' ∧
      ((∀ call, P call → ¬ IsSemUnlink call) → Along openerStep KeepsSem c xs) := by
  induction h generalizing c own with
  | refl p s => exact ⟨[], c, rfl, ⟨⟨own, hloc, hs⟩, fun _ _ => rfl⟩, fun _ => trivial⟩
  | @call call k s s' p' hcall _ ih =>
    have hnext : next openerStep c (i, ()) =
        some (c.set i (sysCall call s).2 ⟨(sysCall call s).2, k (sysCall call s).1, false⟩) := by
      rw [next, hloc, ← hs]
      rfl
    obtain ⟨xs, c', hrun, hgoes, halong⟩ := ih
      (c := c.set i (sysCall call s).2 ⟨(sysCall call s).2, k (sysCall call s).1, false⟩) loc_set_self rfl
    refine ⟨(i, ()) :: xs, c', ?_, ⟨hgoes.loc, fun j hj => (hgoes.others j hj).trans (loc_set_of_ne hj)⟩,
      fun hP => ⟨?_, ?_⟩⟩
    · rw [run_cons, hnext]
      exact hrun
    · have hnot := hP call hcall
      rw [KeepsSem, hloc]
      cases call <;> first | trivial | exact absurd trivial hnot
    · rintro _ hc
      cases hnext.symm.trans hc
      exact halong hP

/-- A process that runs alone returns a handle, if it does so in the system as it is now. -/
theorem goesOn_pShmNew {perms : PShmAccessPerms} {v : psize}
    (hloc : c.loc i = ⟨own, pShmNew pf (fuel + 1) name size perms, false⟩)
    (hne : size ≠ 0) (hs : Begins pf name size True (c.shared.switch own))
    (hends : Ends sysCall (pShmNew pf (fuel + 1) name size perms) (c.shared.switch own) fun r s' =>
      HasSegment s' (fuel + 1) pf name v ∧ ∃ shm, r = .ok shm) :
    ∃ xs c' shm n m s', run openerStep c xs = some c' ∧ GoesOn c c' i (.ret (.ok shm)) s' ∧
      Along openerStep KeepsSem c xs ∧ Grows pf name size (c.shared.switch own) s' ∧ s'.interrupts = [] ∧
      HasSegment s' (fuel + 1) pf name v ∧ Shared pf name size shm n m s' := by
  obtain ⟨r, s', hsteps, ⟨hgrows, hint⟩, hQ⟩ := (amid_pShmNew perms hne hs).alone
    (P := fun call => ¬ IsSemUnlink call) (R := fun s s' => Grows pf name size s s' ∧ s'.interrupts = s.interrupts)
    (fun _ => .inl trivial) (fun _ _ _ h => h.2.2.2) (fun _ _ _ h => ⟨h.1, h.2.2.1⟩) (fun s => ⟨.refl s, rfl⟩)
    (fun _ _ _ h h' => ⟨h.1.trans h'.1, h'.2.trans h.2⟩)
  obtain ⟨_, _, hexec, hseg, shm, rfl⟩ := hends
  cases hsteps.exec.symm.trans hexec
  obtain ⟨n, m, hshared⟩ := hQ shm rfl
  obtain ⟨xs, c', hrun, hgoes, halong⟩ := goesOn_steps hsteps hloc rfl
  exact ⟨xs, c', shm, n, m, s', hrun, hgoes, halong fun _ => id, hgrows, hint.trans hs.interrupts, hseg, hshared⟩

/-! ## The creator before it asks for the semaphore -/

/-- The next call asks for a new semaphore; if there is one, its name will be removed. -/
def AsksForSem (key : Path) {α : Type} (p : SysM α) : Prop :=
  ∃ k k', p = .call (.semOpenExcl key 1) k ∧ k (.error .EEXIST) = .call (.semUnlink key) k'

theorem AsksForSem.bind {key : Path} {α β : Type} {p : SysM α} {f : α → SysM β} (h : AsksForSem key p) :
    AsksForSem key (p >>= f) := by
  obtain ⟨k, k', rfl, hk⟩ := h
  refine ⟨fun r => (k r).bind f, fun r => (k' r).bind f, rfl, ?_⟩
  show (k (.error .EEXIST)).bind f = _
  rw [hk]
  rfl

variable {n : List UInt8}

theorem comes_pSemaphoreNew (s : SysState) :
    Comes sysCall (fun p s' => AsksForSem (semaphoreKey pf n) p ∧ ∃ heap, s' = { s with heap := heap })
      (pSemaphoreNew pf (fuel + 1) n 1 .create) s := by
  obtain ⟨block, heap, hkey⟩ := exec_pIpcGetPlatformKey pf (append_semSuffix_ne n) true
    { s with heap := (s.heap.alloc ()).alloc () }
  rw [pSemaphoreNew, if_neg (by decide)]
  refine Comes.bind_of (exec_pMalloc0 s) (Comes.bind_of (exec_pMalloc0 _) (Comes.bind_of hkey
    (Comes.bind_of (exec_pFree _ _) ?_)))
  exact ⟨_, _, .refl _ _, ⟨_, _, rfl, rfl⟩, _, rfl⟩

/-- The segment is there, with its size. -/
theorem comes_pShmNew (perms : PShmAccessPerms) (hne : size ≠ 0) (hfit : size.toNat < 2 ^ 63)
    (hint : s.interrupts = []) (hname : s.shms.names (shmKey pf name) = none) :
    Comes sysCall (fun p s' => AsksForSem (lockKey pf name) p ∧ s'.interrupts = [] ∧
      HasSegment s' (fuel + 1) pf name size) (pShmNew pf (fuel + 1) name size perms) s := by
  obtain ⟨block, heap, hkey⟩ := exec_pIpcGetPlatformKey pf (append_shmSuffix_ne name) true
    { s with heap := (s.heap.alloc ()).alloc () }
  have hfuel : s.interrupts.length < fuel + 1 := by
    rw [hint]
    exact Nat.succ_pos _
  refine Comes.bind_of (exec_pMalloc0 s) (Comes.bind_of (exec_pMalloc0 _) (Comes.bind_of hkey
    (Comes.bind_of (exec_pFree _ _) (Comes.bind (Q := fun p s' => AsksForSem (lockKey pf name) p ∧
      s'.interrupts = [] ∧ HasSegment s' (fuel + 1) pf name size) ?_ fun p s' h => ⟨h.1.bind, h.2⟩))))
  obtain ⟨rest, hle, hopen⟩ :=
    exec_ppShmOpen (s := { s with heap := heap.free (s.heap.next + 1) }) (shmKey pf name) hfuel
  have hfd := Table.get_alloc s.fds (some s.shms.next)
  simp only [hname] at hopen
  refine Comes.bind_of hopen (Comes.bind_of (exec_ppShmSetSize_new hfd hfit) (Comes.bind_of (exec_mmap hfd hne)
    (Comes.bind_of (exec_close hfd) (Comes.bind (comes_pSemaphoreNew _) ?_))))
  rintro p _ ⟨hasks, heap', rfl⟩
  rw [hint, List.length_nil, Nat.le_zero, List.length_eq_zero_iff] at hle
  refine ⟨hasks.bind, hle, ?_, ⟨s.shms.next, ?_, ?_⟩, hne⟩
  · rw [hle]
    exact Nat.succ_pos _
  · exact Registry.names_create _ _ (0 : psize)
  · exact Registry.value_set ..

/-! ## Processes in turn -/

variable {c₁ : Config ι SysState Opener} {j k : ι} {perms : ι → PShmAccessPerms} {v : psize} {shm : PShm}
  {p : SysM (Except PError PShm)} {m : ℕ}

omit [DecidableEq ι] in
theorem GoesOn.handle (h : GoesOn c c₁ i (.ret (.ok shm)) s) : (c₁.loc i).handle = some shm := by
  obtain ⟨own, hloc, -⟩ := h.loc
  rw [hloc]
  rfl

omit [DecidableEq ι] in
/-- Another process sees the names that the last one has left. -/
theorem GoesOn.view (h : GoesOn c c₁ i p s) (own : SysState) : (c₁.shared.switch own).sems = s.sems ∧
    (c₁.shared.switch own).shms = s.shms ∧ (c₁.shared.switch own).interrupts = s.interrupts := by
  obtain ⟨own', -, rfl⟩ := h.loc
  exact ⟨rfl, rfl, rfl⟩

/-- The first process makes the segment and its lock. -/
theorem goesOn_creator (hloc : c.loc i = ⟨own, pShmNew pf (fuel + 1) name size (perms i), false⟩) (hne : size ≠ 0)
    (hfit : size.toNat < 2 ^ 63) (hint : c.shared.interrupts = [])
    (hshm : c.shared.shms.names (shmKey pf name) = none)
    (hsem : c.shared.sems.names (lockKey pf name) = none) :
    ∃ xs c' shm s', run openerStep c xs = some c' ∧ GoesOn c c' i (.ret (.ok shm)) s' ∧
      Along openerStep KeepsSem c xs ∧
      s'.interrupts = [] ∧ HasSegment s' (fuel + 1) pf name size := by
  have hends : Ends sysCall (pShmNew pf (fuel + 1) name size (perms i)) (c.shared.switch own) fun r s' =>
      HasSegment s' (fuel + 1) pf name size ∧ ∃ shm, r = .ok shm := by
    have hfuel : (c.shared.switch own).interrupts.length < fuel + 1 := by
      rw [show (c.shared.switch own).interrupts = [] from hint]
      exact Nat.succ_pos _
    refine (ends_pShmNew_new (s := c.shared.switch own) hshm hfuel).mono ?_
    rintro r s' (⟨hnot, -⟩ | ⟨hseg, shm, rfl, -⟩)
    · refine absurd (show Creatable _ pf (shmKey pf name) size from ⟨hne, hfit, ?_⟩) hnot
      rw [lockKey] at hsem
      exact hsem
    · exact ⟨hseg, shm, rfl⟩
  obtain ⟨xs, c', shm, _, _, s', hrun, hgoes, halong, -, hint', hseg, -⟩ := goesOn_pShmNew hloc hne
    ⟨hint, fun hbig => absurd hfit hbig, fun _ _ => hsem⟩ hends
  exact ⟨xs, c', shm, s', hrun, hgoes, halong, hint', hseg⟩

/-- The next one opens the segment. -/
theorem goesOn_opener (hloc : c.loc i = ⟨own, pShmNew pf (fuel + 1) name size (perms i), false⟩) (hne : size ≠ 0)
    (hfit : size.toNat < 2 ^ 63) (hint : c.shared.interrupts = [])
    (hseg : HasSegment (c.shared.switch own) (fuel + 1) pf name v) :
    ∃ xs c' shm n m s', run openerStep c xs = some c' ∧ GoesOn c c' i (.ret (.ok shm)) s' ∧
      Along openerStep KeepsSem c xs ∧ Grows pf name size (c.shared.switch own) s' ∧ s'.interrupts = [] ∧
      HasSegment s' (fuel + 1) pf name v ∧ Shared pf name size shm n m s' := by
  refine goesOn_pShmNew hloc hne ⟨hint, fun hbig => absurd hfit hbig, fun _ hnone => ?_⟩ ?_
  · obtain ⟨n, hn, -⟩ := hseg.segment
    cases hn.symm.trans hnone
  · refine (ends_pShmNew_exists hseg).mono ?_
    rintro r s' ⟨hseg', shm, rfl, -⟩
    exact ⟨hseg', shm, rfl⟩

omit [DecidableEq ι] in
theorem GoesOn.hasSegment (h : GoesOn c c₁ i p s) (hseg : HasSegment s (fuel + 1) pf name v) (own : SysState) :
    HasSegment (c₁.shared.switch own) (fuel + 1) pf name v := by
  obtain ⟨-, hshms, hint⟩ := h.view own
  exact hseg.of_shms hshms (Nat.le_of_eq (congrArg _ hint))

/-- All processes are about to call, and the name is not in use. -/
structure AllStart (pf : Platform) (fuel : ℕ) (name : List UInt8) (size : psize) (perms : ι → PShmAccessPerms)
    (c : Config ι SysState Opener) : Prop where
  loc : ∀ i, ∃ own, c.loc i = ⟨own, pShmNew pf (fuel + 1) name size (perms i), false⟩
  interrupts : c.shared.interrupts = []
  segment : c.shared.shms.names (shmKey pf name) = none
  sem : c.shared.sems.names (lockKey pf name) = none

theorem goesOn_turns (h : AllStart pf fuel name size perms c) (hne : size ≠ 0) (hfit : size.toNat < 2 ^ 63)
    (hij : j ≠ i) :
    ∃ xs c', run openerStep c xs = some c' ∧ Along openerStep KeepsSem c xs ∧
      (∃ shm, (c'.loc i).handle = some shm) ∧
      ∃ shm, (c'.loc j).handle = some shm := by
  obtain ⟨own, hi⟩ := h.loc i
  obtain ⟨xs, c₁, shm, s₁, hrun, hgoes, halong, hint, hseg⟩ :=
    goesOn_creator hi hne hfit h.interrupts h.segment h.sem
  obtain ⟨own', hj⟩ := h.loc j
  rw [← hgoes.others j hij] at hj
  obtain ⟨ys, c₂, shm', _, _, s₂, hrun', hgoes', halong', -⟩ :=
    goesOn_opener hj hne hfit ((hgoes.view own').2.2.trans hint)
    (hgoes.hasSegment hseg own')
  refine ⟨xs ++ ys, c₂, run_trans hrun hrun', halong.append hrun halong', ⟨shm, ?_⟩, shm', hgoes'.handle⟩
  rw [hgoes'.others i (Ne.symm hij)]
  exact hgoes.handle

/-- The creator finds a semaphore, and removes its name. -/
theorem goesOn_unlink (hasks : AsksForSem (lockKey pf name) p) (hloc : c.loc i = ⟨own, p, false⟩)
    (hint : c.shared.interrupts = []) (hname : c.shared.sems.names (lockKey pf name) = some m) :
    ∃ xs c' p' s', run openerStep c xs = some c' ∧ GoesOn c c' i p' s' ∧ s'.interrupts = [] ∧
      s'.shms = c.shared.shms ∧ s'.sems = c.shared.sems.remove (lockKey pf name) := by
  obtain ⟨k, k', rfl, hk⟩ := hasks
  have hname' : (c.shared.switch own).sems.names (lockKey pf name) = some m := hname
  have hexcl : sysCall (.semOpenExcl (lockKey pf name) 1) (c.shared.switch own) =
    (.error .EEXIST, c.shared.switch own) := by
    rw [sysCall_semOpenExcl (s := c.shared.switch own) _ _ hint, hname']
  have hunlink : sysCall (.semUnlink (lockKey pf name)) (c.shared.switch own) = (.ok (), { c.shared.switch own with
      sems := c.shared.sems.remove (lockKey pf name) }) := by
    rw [sysCall, hname']
    rfl
  have hsteps : Steps sysCall (fun _ => True) (.call (.semOpenExcl (lockKey pf name) 1) k) (c.shared.switch own)
      (k' (.ok ())) { c.shared.switch own with sems := c.shared.sems.remove (lockKey pf name) } := by
    refine .call trivial ?_
    rw [hexcl, hk]
    refine .call trivial ?_
    rw [hunlink]
    exact .refl _ _
  obtain ⟨xs, c', hrun, hgoes, -⟩ := goesOn_steps hsteps hloc rfl
  exact ⟨xs, c', _, _, hrun, hgoes, hint, rfl, rfl⟩

/-- The creator is overtaken by `j`, and then overtakes `k`. -/
theorem goesOn_overtaken (h : AllStart pf fuel name size perms c) (hne : size ≠ 0)
    (hfit : size.toNat < 2 ^ 63) (hij : j ≠ i)
    (hik : k ≠ i) (hjk : k ≠ j) :
    ∃ xs c', run openerStep c xs = some c' ∧ ¬ ShareOne c' := by
  obtain ⟨own, hi⟩ := h.loc i
  obtain ⟨own₁, hj⟩ := h.loc j
  obtain ⟨own₂, hk⟩ := h.loc k
  obtain ⟨p, s₁, hsteps, hasks, hint₁, hseg₁⟩ := comes_pShmNew (s := c.shared.switch own) (perms i) hne hfit
    h.interrupts h.segment
  obtain ⟨xs₁, c₁, hrun₁, hgoes₁, -⟩ := goesOn_steps hsteps hi rfl
  -- `j` creates the semaphore
  rw [← hgoes₁.others j hij] at hj
  rw [← hgoes₁.others k hik] at hk
  obtain ⟨xs₂, c₂, shm, n, m, s₂, hrun₂, hgoes₂, -, -, hint₂, hseg₂, hshared⟩ := goesOn_opener hj hne hfit
    ((hgoes₁.view own₁).2.2.trans hint₁) (hgoes₁.hasSegment hseg₁ own₁)
  rw [← hgoes₂.others k hjk] at hk
  -- the creator removes its name
  obtain ⟨own', hi', -⟩ := hgoes₁.loc
  rw [← hgoes₂.others i hij.symm] at hi'
  have hview := hgoes₂.view own'
  obtain ⟨xs₃, c₃, p₃, s₃, hrun₃, hgoes₃, hint₃, hshms₃, hsems₃⟩ :=
    goesOn_unlink (m := m) hasks hi' (hview.2.2.trans hint₂) (by
    rw [show c₂.shared.sems = s₂.sems from hview.1]
    exact hshared.named)
  rw [← hgoes₃.others k hik] at hk
  -- `k` creates another one
  have hseg₃ : HasSegment s₃ (fuel + 1) pf name size :=
    hseg₂.of_shms (hshms₃.trans hview.2.1) (by rw [hint₃]; exact Nat.zero_le _)
  obtain ⟨xs₄, c₄, shm', n', m', s₄, hrun₄, hgoes₄, -, hgrows, -, -, hshared'⟩ := goesOn_opener hk hne hfit
    ((hgoes₃.view own₂).2.2.trans hint₃) (hgoes₃.hasSegment hseg₃ own₂)
  refine ⟨xs₁ ++ (xs₂ ++ (xs₃ ++ xs₄)), c₄, run_trans hrun₁ (run_trans hrun₂ (run_trans hrun₃ hrun₄)),
    fun hone => ?_⟩
  have hlt : m < m' := by
    have hsems : (c₃.shared.switch own₂).sems = s₂.sems.remove (lockKey pf name) := by
      rw [(hgoes₃.view own₂).1, hsems₃, show c₂.shared.sems = s₂.sems from hview.1]
    have hfresh := hgrows.fresh
    rw [hsems] at hfresh
    exact Nat.lt_of_lt_of_le (s₂.sems.fresh _ _ hshared.named)
      (hfresh (Registry.names_remove ..) m' hshared'.named)
  have hhandle : (c₄.loc j).handle = some shm := by
    rw [hgoes₄.others j hjk.symm, hgoes₃.others j hij]
    exact hgoes₂.handle
  obtain ⟨_, m₀, hall⟩ := hone.handles
  obtain ⟨sem, hsem, hm⟩ := (hall j shm hhandle).semaphore
  obtain ⟨sem', hsem', hm'⟩ := (hall k shm' hgoes₄.handle).semaphore
  obtain ⟨sem₁, hsem₁, hm₁⟩ := hshared.refers.semaphore
  obtain ⟨sem₂, hsem₂, hm₂⟩ := hshared'.refers.semaphore
  cases hsem.symm.trans hsem₁
  cases hsem'.symm.trans hsem₂
  cases hm.symm.trans hm₁
  cases hm'.symm.trans hm₂
  exact lt_irrefl _ hlt

end Plibsys.Posix
