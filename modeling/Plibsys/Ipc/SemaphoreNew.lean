/-
  What `p_semaphore_new` does to the semaphores of the system (POSIX).

  A name that is not in use gets a new semaphore, and an existing semaphore is opened.  A name in
  use with `P_SEM_ACCESS_CREATE` loses its semaphore, and the call fails: after `sem_unlink` the
  code opens the name without `O_CREAT`.
-/
import Plibsys.Ipc.PosixSemaphore

namespace Plibsys.Posix

open Programs Registries SysState

variable {s : SysState} {fuel : ℕ}

/-! ## Interrupted calls -/

/-- `sem_open (key, O_CREAT | O_EXCL, ...)`, once it is not interrupted. -/
theorem exec_semOpenExcl (key : Path) (value : ℕ) (hfuel : s.interrupts.length < fuel) :
    ∃ rest, rest.length ≤ s.interrupts.length ∧
      (retryEintr (sys (.semOpenExcl key value)) fuel).exec sysCall s =
        some (match s.sems.names key with
          | some _ => (.error .EEXIST, { s with interrupts := rest })
          | none => (.ok s.sems.next, { s with sems := s.sems.create key value, interrupts := rest })) := by
  have hcall : ∀ s, (sys (.semOpenExcl key value)).exec sysCall s = some (s.interruptible fun s =>
      match s.sems.names key with
      | some _ => (.error .EEXIST, s)
      | none => (.ok s.sems.next, { s with sems := s.sems.create key value })) := fun _ => rfl
  obtain ⟨rest, hle, hexec⟩ := exec_retryEintr hcall (fun rest => by cases s.sems.names key <;> simp) hfuel
  refine ⟨rest, hle, hexec.trans ?_⟩
  cases s.sems.names key <;> rfl

/-- `sem_open (key, 0, ...)`, once it is not interrupted. -/
theorem exec_semOpen (key : Path) (hfuel : s.interrupts.length < fuel) :
    ∃ rest, rest.length ≤ s.interrupts.length ∧ (retryEintr (sys (.semOpen key)) fuel).exec sysCall s =
      some (lookup s.sems key, { s with interrupts := rest }) := by
  have hcall : ∀ s, (sys (.semOpen key)).exec sysCall s = some (s.interruptible fun s => (lookup s.sems key, s)) :=
    fun _ => rfl
  refine exec_retryEintr (f := fun s => (lookup s.sems key, s)) hcall (fun rest => ?_) hfuel
  rw [lookup]
  cases s.sems.names key <;> simp

/-! ## The handle -/

variable (sem : PSemaphore) {key : PString}

/-- A name that is not in use. -/
theorem exec_createHandle_new (hkey : sem.platform_key = some key) (hname : s.sems.names key.chars = none)
    (hfuel : s.interrupts.length < fuel) :
    ∃ rest, rest.length ≤ s.interrupts.length ∧ (ppSemaphoreCreateHandle fuel sem).exec sysCall s =
      some (({ sem with sem_created := true, sem_hdl := some s.sems.next }, .ok ()),
        { s with sems := s.sems.create key.chars sem.init_val.toNatClampNeg, interrupts := rest }) := by
  obtain ⟨rest, hle, hopen⟩ := exec_semOpenExcl key.chars sem.init_val.toNatClampNeg hfuel
  rw [hname] at hopen
  refine ⟨rest, hle, ?_⟩
  rw [ppSemaphoreCreateHandle, hkey]
  dsimp only
  rw [Prog.exec_bind_of hopen]
  rfl

/-- An existing semaphore is opened. -/
theorem exec_createHandle_open (hkey : sem.platform_key = some key) {i : ℕ}
    (hname : s.sems.names key.chars = some i) (hmode : sem.mode = .open) (hfuel : s.interrupts.length < fuel) :
    ∃ rest, rest.length ≤ s.interrupts.length ∧ (ppSemaphoreCreateHandle fuel sem).exec sysCall s =
      some (({ sem with sem_hdl := some i }, .ok ()), { s with interrupts := rest }) := by
  obtain ⟨rest, hle, hopen⟩ := exec_semOpenExcl key.chars sem.init_val.toNatClampNeg hfuel
  rw [hname] at hopen
  obtain ⟨rest', hle', hreopen⟩ := exec_semOpen (s := { s with interrupts := rest }) key.chars
    (Nat.lt_of_le_of_lt hle hfuel)
  rw [lookup, hname] at hreopen
  refine ⟨rest', hle'.trans hle, ?_⟩
  rw [ppSemaphoreCreateHandle, hkey]
  dsimp only
  rw [Prog.exec_bind_of hopen]
  simp only [hmode, reduceCtorEq, if_false, Prog.exec_bind, hreopen]
  rfl

/-- With `P_SEM_ACCESS_CREATE` an existing name is removed, and then it cannot be opened. -/
theorem exec_createHandle_create (hkey : sem.platform_key = some key) {i : ℕ}
    (hname : s.sems.names key.chars = some i) (hmode : sem.mode = .create) (hfuel : s.interrupts.length < fuel) :
    ∃ rest, rest.length ≤ s.interrupts.length ∧ (ppSemaphoreCreateHandle fuel sem).exec sysCall s =
      some (({ sem with sem_created := false, sem_hdl := none },
        .error (lastError .ENOENT "Failed to call sem_open() to create semaphore")),
        { s with sems := s.sems.remove key.chars, interrupts := rest }) := by
  obtain ⟨rest, hle, hopen⟩ := exec_semOpenExcl key.chars sem.init_val.toNatClampNeg hfuel
  rw [hname] at hopen
  obtain ⟨rest', hle', hreopen⟩ := exec_semOpen key.chars
    (s := { s with sems := s.sems.remove key.chars, interrupts := rest }) (Nat.lt_of_le_of_lt hle hfuel)
  rw [lookup, Registry.names_remove] at hreopen
  have hunlink : (sys (.semUnlink key.chars)).exec sysCall { s with interrupts := rest } =
      some (.ok (), { s with sems := s.sems.remove key.chars, interrupts := rest }) := by
    show some (sysCall (.semUnlink key.chars) { s with interrupts := rest }) = _
    simp only [sysCall, hname]
  refine ⟨rest', hle'.trans hle, ?_⟩
  rw [ppSemaphoreCreateHandle, hkey]
  dsimp only
  rw [Prog.exec_bind_of hopen]
  simp only [hmode, if_true, Prog.exec_bind, hunlink, Option.bind_some, hreopen]
  rfl

/-! ## The semaphore -/

section
variable (s fuel)
variable (pf : Platform) (name : List UInt8) {v : pint} (mode : PSemaphoreAccessMode)

/-- The key of a semaphore. -/
def semaphoreKey (pf : Platform) (name : List UInt8) : Path := platformKey pf (name ++ semSuffix) true

/-- What happens to the handle decides about the call. -/
theorem exec_pSemaphoreNew (hv : 0 ≤ v) : ∃ block key heap, key.chars = semaphoreKey pf name ∧
    (pSemaphoreNew pf fuel name v mode).exec sysCall s =
      ((ppSemaphoreCreateHandle fuel ⟨block, false, some key, none, mode, v⟩).exec sysCall
        { s with heap := heap }).bind fun r => (match r.1.2 with
          | .error e => do
            pSemaphoreFree r.1.1
            return .error e
          | .ok () => return .ok r.1.1 : SysM (Except PError PSemaphore)).exec sysCall r.2 := by
  obtain ⟨block, heap, hkey⟩ := exec_pIpcGetPlatformKey pf (append_semSuffix_ne name) true
    { s with heap := (s.heap.alloc ()).alloc () }
  refine ⟨s.heap.next, ⟨block, semaphoreKey pf name⟩, heap.free (s.heap.next + 1), rfl, ?_⟩
  rw [pSemaphoreNew, if_neg (Int32.not_lt.2 hv), Prog.exec_bind_of (exec_pMalloc0 s)]
  dsimp only
  rw [Prog.exec_bind_of (exec_pMalloc0 _)]
  dsimp only
  rw [Prog.exec_bind_of hkey, Prog.exec_bind_of (exec_pFree _ _), Prog.exec_bind]
  rfl

end

variable {pf : Platform} {name : List UInt8} {v : pint}

/-- A name that is not in use. -/
theorem exec_pSemaphoreNew_new (mode : PSemaphoreAccessMode) (hv : 0 ≤ v) (hfuel : s.interrupts.length < fuel)
    (hname : s.sems.names (semaphoreKey pf name) = none) :
    ∃ sem heap rest, rest.length ≤ s.interrupts.length ∧
      (pSemaphoreNew pf fuel name v mode).exec sysCall s = some (.ok sem, { s with
        heap := heap, sems := s.sems.create (semaphoreKey pf name) v.toNatClampNeg, interrupts := rest }) ∧
      sem.sem_hdl = some s.sems.next := by
  obtain ⟨block, key, heap, hkey, hexec⟩ := exec_pSemaphoreNew s fuel pf name mode hv
  rw [← hkey] at hname ⊢
  obtain ⟨rest, hle, hcreate⟩ := exec_createHandle_new ⟨block, false, some key, none, mode, v⟩
    (s := { s with heap := heap }) rfl hname hfuel
  rw [hcreate] at hexec
  exact ⟨_, heap, rest, hle, hexec, rfl⟩

/-- An existing semaphore is opened. -/
theorem exec_pSemaphoreNew_open (hv : 0 ≤ v) (hfuel : s.interrupts.length < fuel) {i : ℕ}
    (hname : s.sems.names (semaphoreKey pf name) = some i) :
    ∃ sem heap rest, rest.length ≤ s.interrupts.length ∧
      (pSemaphoreNew pf fuel name v .open).exec sysCall s = some (.ok sem, { s with
        heap := heap, interrupts := rest }) ∧
      sem.sem_hdl = some i := by
  obtain ⟨block, key, heap, hkey, hexec⟩ := exec_pSemaphoreNew s fuel pf name .open hv
  rw [← hkey] at hname
  obtain ⟨rest, hle, hopen⟩ := exec_createHandle_open ⟨block, false, some key, none, .open, v⟩
    (s := { s with heap := heap }) rfl hname rfl hfuel
  rw [hopen] at hexec
  exact ⟨_, heap, rest, hle, hexec, rfl⟩

/-- With `P_SEM_ACCESS_CREATE` a name in use loses its semaphore, and the call fails. -/
theorem exec_pSemaphoreNew_create (hv : 0 ≤ v) (hfuel : s.interrupts.length < fuel) {i : ℕ}
    (hname : s.sems.names (semaphoreKey pf name) = some i) :
    ∃ heap rest, rest.length ≤ s.interrupts.length ∧
      (pSemaphoreNew pf fuel name v .create).exec sysCall s =
        some (.error (lastError .ENOENT "Failed to call sem_open() to create semaphore"), { s with
          heap := heap, sems := s.sems.remove (semaphoreKey pf name), interrupts := rest }) := by
  obtain ⟨block, key, heap, hkey, hexec⟩ := exec_pSemaphoreNew s fuel pf name .create hv
  rw [← hkey] at hname ⊢
  obtain ⟨rest, hle, hcreate⟩ := exec_createHandle_create ⟨block, false, some key, none, .create, v⟩
    (s := { s with heap := heap }) rfl hname rfl hfuel
  rw [hcreate] at hexec
  exact ⟨_, rest, hle, hexec⟩

variable {mode : PSemaphoreAccessMode}

/-- The value that the semaphore of a call should have; `existing` is the value before the call. -/
def semaphoreValue (existing : Option ℕ) (v : pint) : PSemaphoreAccessMode → ℕ
  | .create => v.toNatClampNeg
  | .open => existing.getD v.toNatClampNeg

/-- The call succeeds, and the semaphore under the name, which it returns, has the value that it
    should have. -/
def SemaphoreNewMeets (pf : Platform) (fuel : ℕ) (name : List UInt8) (v : pint) (mode : PSemaphoreAccessMode)
    (s : SysState) : Prop :=
  ∃ sem hdl s', (pSemaphoreNew pf fuel name v mode).exec sysCall s = some (.ok sem, s') ∧
    sem.sem_hdl = some hdl ∧ s'.sems.names (semaphoreKey pf name) = some hdl ∧
    s'.sems.value hdl = semaphoreValue (s.semValue (semaphoreKey pf name)) v mode

/-- A name that is not in use gets a semaphore with the value of the call, in both modes. -/
theorem pSemaphoreNew_new (hv : 0 ≤ v) (hfuel : s.interrupts.length < fuel)
    (hname : s.sems.names (semaphoreKey pf name) = none) : SemaphoreNewMeets pf fuel name v mode s := by
  obtain ⟨sem, heap, rest, -, hexec, hhdl⟩ := exec_pSemaphoreNew_new mode hv hfuel hname
  refine ⟨sem, s.sems.next, _, hexec, hhdl, Registry.names_create .., ?_⟩
  rw [semValue, hname]
  refine (Registry.value_create ..).trans ?_
  cases mode <;> rfl

/-- An existing semaphore is opened with its value. -/
theorem pSemaphoreNew_open (hv : 0 ≤ v) (hfuel : s.interrupts.length < fuel) {i : ℕ}
    (hname : s.sems.names (semaphoreKey pf name) = some i) : SemaphoreNewMeets pf fuel name v .open s := by
  obtain ⟨sem, heap, rest, -, hexec, hhdl⟩ := exec_pSemaphoreNew_open hv hfuel hname
  refine ⟨sem, i, _, hexec, hhdl, hname, ?_⟩
  rw [semValue, hname]
  rfl

/-- **Creating a semaphore**: the call does what its mode says, unless it has to create a
    semaphore under a name that is in use. -/
theorem pSemaphoreNew_meets_iff (hv : 0 ≤ v) (hfuel : s.interrupts.length < fuel) :
    SemaphoreNewMeets pf fuel name v mode s ↔
      (mode = .create → s.sems.names (semaphoreKey pf name) = none) := by
  constructor
  · rintro ⟨sem, hdl, s', hexec, -⟩ rfl
    rcases hname : s.sems.names (semaphoreKey pf name) with _ | i
    · rfl
    · obtain ⟨heap, rest, -, hfail⟩ := exec_pSemaphoreNew_create hv hfuel hname
      rw [hfail] at hexec
      cases hexec
  · intro hmode
    rcases hname : s.sems.names (semaphoreKey pf name) with _ | i
    · exact pSemaphoreNew_new hv hfuel hname
    · cases mode with
      | create => cases hname.symm.trans (hmode rfl)
      | «open» => exact pSemaphoreNew_open hv hfuel hname

/-- A system with one semaphore. -/
def oneSemaphore (key : Path) (value : ℕ) : SysState :=
  { SysState.empty with sems := Registry.empty.create key value }

/-- A name that is not in use, and an interrupted call. -/
theorem pSemaphoreNew_meets_first :
    SemaphoreNewMeets ⟨.little, ['/']⟩ 2 [97] 3 .create { SysState.empty with interrupts := [true] } :=
  (pSemaphoreNew_meets_iff (by decide) (by decide)).2 fun _ => rfl

/-- The name is in use. -/
theorem pSemaphoreNew_inUse :
    ¬ SemaphoreNewMeets ⟨.little, ['/']⟩ 1 [97] 3 .create
      (oneSemaphore (semaphoreKey ⟨.little, ['/']⟩ [97]) 1) := by
  rintro ⟨sem, hdl, s', hexec, -⟩
  have hname : (oneSemaphore (semaphoreKey ⟨.little, ['/']⟩ [97]) 1).sems.names
      (semaphoreKey ⟨.little, ['/']⟩ [97]) = some 0 := Registry.names_create ..
  obtain ⟨heap, rest, -, hfail⟩ := exec_pSemaphoreNew_create (v := 3) (by decide) (Nat.zero_lt_one : _ < 1) hname
  rw [hfail] at hexec
  cases hexec

end Plibsys.Posix
