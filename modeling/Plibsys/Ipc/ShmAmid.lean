/-
  One process that calls `p_shm_new` among others (POSIX).

  Nobody removes the name of the segment, unless its size is too large for every call, and nobody
  removes the name of the semaphore: so what a process has found under these names stays there.
-/
import Plibsys.Ipc.ShmOpeners

namespace Plibsys.Posix

open Programs Registries SysState Prog

section
variable (pf : Platform) (name : List UInt8) (size : psize)

/-- The name of the segment's semaphore. -/
def lockKey : Path := shmSemaphoreKey pf (shmKey pf name)

/-- Every segment with the name has size 0. -/
def Unsized (s : SysState) : Prop := ∀ n, s.shms.names (shmKey pf name) = some n → s.shms.value n = 0

/-- What happens to the names. -/
structure Grows (s s' : SysState) : Prop where
  segment : size.toNat < 2 ^ 63 → ∀ n, s.shms.names (shmKey pf name) = some n →
    s'.shms.names (shmKey pf name) = some n
  zero : ¬ size.toNat < 2 ^ 63 → ∀ n, s.shms.value n = 0 → s'.shms.value n = 0
  unsized : ¬ size.toNat < 2 ^ 63 → Unsized pf name s → Unsized pf name s'
  sem : ∀ m, s.sems.names (lockKey pf name) = some m → s'.sems.names (lockKey pf name) = some m
  fresh : s.sems.names (lockKey pf name) = none → ∀ m, s'.sems.names (lockKey pf name) = some m → s.sems.next ≤ m
  semNext : s.sems.next ≤ s'.sems.next

/-- A new semaphore is free, and the others keep their values. -/
structure KeepsLock (s s' : SysState) : Prop where
  value : ∀ m, s.sems.names (lockKey pf name) = some m → s'.sems.value m = s.sems.value m
  free : s.sems.names (lockKey pf name) = none → ∀ m, s'.sems.names (lockKey pf name) = some m →
    s'.sems.value m = 1

/-- What the others do between two calls. -/
structure Interferes (s s' : SysState) : Prop where
  fds : s'.fds = s.fds
  maps : s'.maps = s.maps
  interrupts : s'.interrupts = s.interrupts
  grows : Grows pf name size s s'

def IsSemUnlink : SysCall → Prop
  | .semUnlink _ => True
  | _ => False

end

variable {pf : Platform} {name : List UInt8} {size : psize} {s s' s'' : SysState}

theorem Grows.of_eq (hsems : s'.sems = s.sems) (hshms : s'.shms = s.shms) : Grows pf name size s s' := by
  refine ⟨fun _ n hn => ?_, fun _ n hn => ?_, fun _ h => ?_, fun m hm => ?_, fun hnone m hm => ?_, ?_⟩
  · rwa [hshms]
  · rwa [hshms]
  · rwa [Unsized, hshms]
  · rwa [hsems]
  · rw [hsems, hnone] at hm
    cases hm
  · rw [hsems]

theorem Grows.refl (s : SysState) : Grows pf name size s s := .of_eq rfl rfl

theorem Grows.trans (h : Grows pf name size s s') (h' : Grows pf name size s' s'') : Grows pf name size s s'' := by
  refine ⟨fun hfit n hn => h'.segment hfit n (h.segment hfit n hn),
    fun hbig n hn => h'.zero hbig n (h.zero hbig n hn),
    fun hbig hu => h'.unsized hbig (h.unsized hbig hu), fun m hm => h'.sem m (h.sem m hm), ?_,
      h.semNext.trans h'.semNext⟩
  intro hnone m hm
  rcases hname : s'.sems.names (lockKey pf name) with _ | m'
  · exact h.semNext.trans (h'.fresh hname m hm)
  · cases (h'.sem m' hname).symm.trans hm
    exact h.fresh hnone m hname

theorem KeepsLock.of_eq (hsems : s'.sems = s.sems) : KeepsLock pf name s s' := by
  refine ⟨fun m _ => by rw [hsems], fun hnone m hm => ?_⟩
  rw [hsems, hnone] at hm
  cases hm

theorem Interferes.refl (s : SysState) : Interferes pf name size s s := ⟨rfl, rfl, rfl, .refl s⟩

theorem Interferes.trans (h : Interferes pf name size s s') (h' : Interferes pf name size s' s'') :
    Interferes pf name size s s'' :=
  ⟨h'.fds.trans h.fds, h'.maps.trans h.maps, h'.interrupts.trans h.interrupts, h.grows.trans h'.grows⟩

variable (pf name size) in
/-- What an opener and the others expect of each other.  If the opener is `alone`, it never calls
    `sem_unlink`; else this is a condition. -/
def openers (alone : Prop) : Concord SysCall SysState where
  rely s s' := Interferes pf name size s s' ∧ (alone → s' = s)
  ok c := alone ∨ ¬ IsSemUnlink c
  guar c s s' := Grows pf name size s s' ∧ KeepsLock pf name s s' ∧ s'.interrupts = s.interrupts ∧ ¬ IsSemUnlink c
  refl s := ⟨.refl s, fun _ => rfl⟩
  trans h h' := ⟨h.1.trans h'.1, fun ha => (h'.2 ha).trans (h.2 ha)⟩

variable {alone : Prop} {P : SysState → Prop} {α : Type} {Q : α → SysState → Prop}

/-! ## Calls that leave the names alone -/

/-- An assertion that neither the others nor a change of the heap can make false. -/
structure Stable (pf : Platform) (name : List UInt8) (size : psize) (alone : Prop) (P : SysState → Prop) :
    Prop where
  rely : ∀ s s', P s → (openers pf name size alone).rely s s' → P s'
  heap : ∀ s heap, P s → P { s with heap := heap }

theorem Stable.and {P' : SysState → Prop} (h : Stable pf name size alone P) (h' : Stable pf name size alone P') :
    Stable pf name size alone fun s => P s ∧ P' s :=
  ⟨fun s s' hs hr => ⟨h.rely s s' hs.1 hr, h'.rely s s' hs.2 hr⟩,
    fun s heap hs => ⟨h.heap s heap hs.1, h'.heap s heap hs.2⟩⟩

/-- A call that changes neither semaphores nor segments. -/
theorem guar_of_eq {c : SysCall} (hc : ¬ IsSemUnlink c) (hsems : s'.sems = s.sems) (hshms : s'.shms = s.shms)
    (hint : s'.interrupts = s.interrupts) : (openers pf name size alone).guar c s s' :=
  ⟨.of_eq hsems hshms, .of_eq hsems, hint, hc⟩

variable (hP : Stable pf name size alone P)
include hP

theorem amid_pMalloc0 {f : Option ℕ → SysM α} (hs : P s)
    (h : ∀ block s, P s → (f (some block)).Amid sysCall (openers pf name size alone) Q s) :
    (pMalloc0 >>= f).Amid sysCall (openers pf name size alone) Q s :=
  Amid.perform fun _ hr _ => ⟨guar_of_eq id rfl rfl rfl, h _ _ (hP.heap _ _ (hP.rely _ _ hs hr))⟩

theorem amid_pFree (block : ℕ) {f : Unit → SysM α} (hs : P s)
    (h : ∀ s, P s → (f ()).Amid sysCall (openers pf name size alone) Q s) :
    (pFree block >>= f).Amid sysCall (openers pf name size alone) Q s :=
  Amid.perform fun _ hr _ => ⟨guar_of_eq id rfl rfl rfl, h _ (hP.heap _ _ (hP.rely _ _ hs hr))⟩

/-- The key of a name. -/
theorem amid_pIpcGetPlatformKey {n : List UInt8} (hn : n ≠ []) (hs : P s) :
    (pIpcGetPlatformKey pf n true).Amid sysCall (openers pf name size alone)
      (fun r s' => (∃ block, r = some ⟨block, platformKey pf n true⟩) ∧ P s') s := by
  rw [pIpcGetPlatformKey, ipcHashString_eq pf hn]
  refine amid_pMalloc0 hP hs fun sha1 _ hs => amid_pMalloc0 hP hs fun context _ hs => ?_
  refine amid_pMalloc0 hP hs fun block _ hs => amid_pFree hP context hs fun _ hs => ?_
  refine amid_pFree hP sha1 hs fun _ hs => amid_pMalloc0 hP hs fun path_name _ hs => ?_
  refine amid_pFree hP block hs fun _ hs => Amid.pure fun s' hr => ⟨⟨path_name, rfl⟩, hP.rely _ _ hs hr⟩

omit hP

/-! ## The semaphore -/

/-- A call that was not interrupted is not repeated. -/
theorem amid_retryEintr {t : Concord SysCall SysState} {call : SysM (Except Errno ℕ)} {fuel : ℕ}
    {Q : Except Errno ℕ → SysState → Prop}
    (h : call.Amid sysCall t (fun r s' => r ≠ .error .EINTR ∧ Q r s') s) :
    (retryEintr call (fuel + 1)).Amid sysCall t Q s := by
  refine h.bind_rely fun r s' hQ => ?_
  split
  · exact absurd rfl (hQ s' (t.refl s')).1
  · exact Amid.pure fun s'' hr => (hQ s'' hr).2

/-- The name of the lock refers to this semaphore. -/
def Named (pf : Platform) (name : List UInt8) (m : ℕ) (s : SysState) : Prop :=
  s.sems.names (lockKey pf name) = some m

theorem stable_named (m : ℕ) : Stable pf name size alone (Named pf name m) :=
  ⟨fun _ _ hs hr => hr.1.grows.sem m hs, fun _ _ hs => hs⟩

/-- A creator that is alone finds no semaphore. -/
def Unlocked (pf : Platform) (name : List UInt8) (alone : Prop) (mode : PSemaphoreAccessMode)
    (s : SysState) : Prop :=
  mode = .create → alone → s.sems.names (lockKey pf name) = none

theorem stable_unlocked (mode : PSemaphoreAccessMode) :
    Stable pf name size alone (Unlocked pf name alone mode) := by
  refine ⟨fun s s' hs hr hmode ha => ?_, fun _ _ hs => hs⟩
  rw [hr.2 ha]
  exact hs hmode ha

theorem interruptible_nil (hint : s.interrupts = []) (call : SysState → Except Errno ℕ × SysState) :
    s.interruptible call = call s := by
  simp only [interruptible, hint]

theorem sysCall_semOpenExcl (key : Path) (value : ℕ) (hint : s.interrupts = []) :
    sysCall (.semOpenExcl key value) s = match s.sems.names key with
      | some _ => (.error .EEXIST, s)
      | none => (.ok s.sems.next, { s with sems := s.sems.create key value }) := by
  rw [sysCall, interruptible_nil hint]
  cases s.sems.names key <;> rfl

theorem sysCall_semOpen (key : Path) (hint : s.interrupts = []) :
    sysCall (.semOpen key) s = (lookup s.sems key, s) := by
  rw [sysCall, interruptible_nil hint]

/-- The semaphore is created with the value 1. -/
theorem guar_create (value : ℕ) (hnone : s.sems.names (lockKey pf name) = none) (hv : value = 1) :
    (openers pf name size alone).guar (.semOpenExcl (lockKey pf name) value) s
      { s with sems := s.sems.create (lockKey pf name) value } := by
  subst hv
  refine ⟨⟨fun _ _ => id, fun _ _ => id, fun _ => id, fun m hm => ?_, fun _ m hm => ?_, Nat.le_succ _⟩,
    ⟨fun m hm => ?_, fun _ m hm => ?_⟩, rfl, id⟩
  · cases hnone.symm.trans hm
  · cases (Registry.names_create ..).symm.trans hm
    exact Nat.le_refl _
  · cases hnone.symm.trans hm
  · cases (Registry.names_create ..).symm.trans hm
    exact Registry.value_create ..

variable (hP : Stable pf name size alone P) (hsems : ∀ s r, P s → P { s with sems := r })
  (hint : ∀ s, P s → s.interrupts = [])
include hP hsems hint

theorem amid_semOpenExcl {fuel value : ℕ} (hv : value = 1) (mode : PSemaphoreAccessMode) (hs : P s)
    (hfree : Unlocked pf name alone mode s) :
    (retryEintr (sys (.semOpenExcl (lockKey pf name) value)) (fuel + 1)).Amid sysCall (openers pf name size alone)
      (fun r s' => P s' ∧ ∃ m, Named pf name m s' ∧
      (r = .ok m ∨ r = .error .EEXIST ∧ ¬ (mode = .create ∧ alone))) s := by
  refine amid_retryEintr fun s' hr _ => ?_
  have hs' := hP.rely _ _ hs hr
  rw [sysCall_semOpenExcl _ _ (hint _ hs')]
  rcases hname : s'.sems.names (lockKey pf name) with _ | m
  · have hcreated : Named pf name s'.sems.next { s' with sems := s'.sems.create (lockKey pf name) value } :=
      Registry.names_create ..
    refine ⟨guar_create value hname hv, fun s'' hr' => ⟨?_, ?_, s'.sems.next, ?_, .inl rfl⟩⟩
    · rintro ⟨⟩
    · exact hP.rely _ _ (hsems _ _ hs') hr'
    · exact (stable_named _).rely _ _ hcreated hr'
  · refine ⟨guar_of_eq id rfl rfl rfl, fun s'' hr' => ⟨?_, ?_, m, ?_, .inr ⟨rfl, ?_⟩⟩⟩
    · rintro ⟨⟩
    · exact hP.rely _ _ hs' hr'
    · exact (stable_named _).rely _ _ hname hr'
    · rintro ⟨hmode, ha⟩
      cases hname.symm.trans ((stable_unlocked mode).rely _ _ hfree hr hmode ha)

omit hsems in
theorem amid_semOpen {fuel m : ℕ} (hs : P s) (hm : Named pf name m s) :
    (retryEintr (sys (.semOpen (lockKey pf name))) (fuel + 1)).Amid sysCall (openers pf name size alone)
      (fun r s' => P s' ∧ Named pf name m s' ∧ r = .ok m) s := by
  refine amid_retryEintr fun s' hr _ => ?_
  have hs' := hP.rely _ _ hs hr
  have hm' : s'.sems.names (lockKey pf name) = some m := (stable_named m).rely _ _ hm hr
  rw [sysCall_semOpen _ (hint _ hs'), lookup, hm']
  refine ⟨guar_of_eq id rfl rfl rfl, fun s'' hr' => ⟨?_, ?_, ?_, rfl⟩⟩
  · rintro ⟨⟩
  · exact hP.rely _ _ hs' hr'
  · exact (stable_named m).rely _ _ hm' hr'

/-- The semaphore is created or opened, and `sem_unlink` is not called. -/
theorem amid_createSemaphore {fuel ret block : ℕ} (mode : PSemaphoreAccessMode) (hs : P s)
    (hfree : Unlocked pf name alone mode s) :
    (ppSemaphoreCreateHandle (fuel + 1) ⟨ret, false, some ⟨block, lockKey pf name⟩, none, mode, 1⟩).Amid sysCall
      (openers pf name size alone)
      (fun r s' => r.2 = .ok () ∧ P s' ∧ ∃ m, r.1.sem_hdl = some m ∧ Named pf name m s') s := by
  have hdone : ∀ sem m s, P s → Named pf name m s → sem.sem_hdl = some m →
      (pure (sem, .ok ()) : SysM (PSemaphore × Except PError Unit)).Amid sysCall (openers pf name size alone)
        (fun r s' => r.2 = .ok () ∧ P s' ∧ ∃ m, r.1.sem_hdl = some m ∧ Named pf name m s') s :=
    fun sem m s hs hm hhdl => Amid.pure fun _ hr =>
      ⟨rfl, hP.rely _ _ hs hr, m, hhdl, (stable_named m).rely _ _ hm hr⟩
  refine (amid_semOpenExcl hP hsems hint rfl mode hs hfree).bind ?_
  rintro r s' ⟨hs', m, hm, rfl | ⟨rfl, hnot⟩⟩
  · exact hdone _ m _ hs' hm rfl
  · cases mode with
    | «open» =>
      refine (amid_semOpen hP hint hs' hm).bind ?_
      rintro _ s'' ⟨hs'', hm', rfl⟩
      exact hdone _ m _ hs'' hm' rfl
    | create =>
      -- the creator is not alone, and then the call is not made
      refine Amid.perform fun s'' _ hok => ?_
      rcases hok with ha | hok
      · exact absurd ⟨rfl, ha⟩ hnot
      · exact absurd trivial hok

/-- **The lock of a segment**: whoever comes first creates it. -/
theorem amid_pSemaphoreNew {fuel : ℕ} (mode : PSemaphoreAccessMode) (hs : P s)
    (hfree : Unlocked pf name alone mode s) :
    (pSemaphoreNew pf (fuel + 1) (stringBytes (shmKey pf name)) 1 mode).Amid sysCall (openers pf name size alone)
      (fun r s' => P s' ∧ ∃ sem m, r = .ok sem ∧ sem.sem_hdl = some m ∧ Named pf name m s') s := by
  have hPU := hP.and (stable_unlocked mode)
  rw [pSemaphoreNew, if_neg (by decide)]
  refine amid_pMalloc0 hPU ⟨hs, hfree⟩ fun ret _ h => amid_pMalloc0 hPU h fun new_name _ h => ?_
  refine (amid_pIpcGetPlatformKey hPU (append_semSuffix_ne _) h).bind ?_
  rintro _ _ ⟨⟨block, rfl⟩, h⟩
  refine amid_pFree hPU new_name h fun _ h => ?_
  refine (amid_createSemaphore hP hsems hint mode h.1 h.2).bind ?_
  rintro ⟨sem, r⟩ s' ⟨rfl, hs', m, hhdl, hm⟩
  exact Amid.pure fun _ hr => ⟨hP.rely _ _ hs' hr, sem, m, rfl, hhdl, (stable_named m).rely _ _ hm hr⟩

end Plibsys.Posix
