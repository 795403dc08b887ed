/-
  What a process leaves behind when it has freed its semaphores and segments (System V).

  A key file is left behind if one call creates both the file and the semaphore, or segment, with
  its key.  Otherwise nothing is left.
-/
import Plibsys.Ipc.SysvOwned
import Plibsys.Lib.Runs

namespace Plibsys.Sysv

open Programs Registries SysState Prog Runs

/-- The system, and the handles that the process holds. -/
structure IpcProcess where
  sys : SysState
  sems : List PSemaphore
  shms : List PShm

/-- The calls of the process; a handle is freed by its place among those that are held. -/
inductive IpcCall where
  | semaphoreNew (name : List UInt8) (init_val : pint) (mode : PSemaphoreAccessMode)
  | semaphoreFree (i : ℕ)
  | shmNew (name : List UInt8) (size : psize) (perms : PShmAccessPerms)
  | shmFree (i : ℕ)
  deriving DecidableEq, Repr

/-- One call; `true` if it returns a handle. -/
def ipcStep (pf : Platform) : IpcCall → IpcProcess → Option (Bool × IpcProcess)
  | .semaphoreNew name init_val mode, p => do
    let (r, s) ← (pSemaphoreNew pf name init_val mode).exec sysCall p.sys
    match r with
    | .ok sem => return (true, { p with sys := s, sems := sem :: p.sems })
    | .error _ => return (false, { p with sys := s })
  | .semaphoreFree i, p =>
    match p.sems[i]? with
    | none => some (false, p)
    | some sem => do
      let ((), s) ← (pSemaphoreFree sem).exec sysCall p.sys
      return (false, { p with sys := s, sems := p.sems.eraseIdx i })
  | .shmNew name size perms, p => do
    let (r, s) ← (pShmNew pf name size perms).exec sysCall p.sys
    match r with
    | .ok shm => return (true, { p with sys := s, shms := shm :: p.shms })
    | .error _ => return (false, { p with sys := s })
  | .shmFree i, p =>
    match p.shms[i]? with
    | none => some (false, p)
    | some shm => do
      let ((), s) ← (pShmFree shm).exec sysCall p.sys
      return (false, { p with sys := s, shms := p.shms.eraseIdx i })

variable (pf : Platform)

/-- The call does not create a key file together with the object that has its key. -/
def KeyFileTaken (p : IpcProcess) : IpcCall → Prop
  | .semaphoreNew name init_val _ => 0 ≤ init_val → SemTaken p.sys (semaphoreKey pf name)
  | .shmNew name size _ => ShmTaken pf p.sys (shmKey pf name) size
  | _ => True

/-- Every key file and every semaphore that has been created since the state `s₀` belongs to a handle. -/
def IpcProcess.Owned (s₀ : SysState) (p : IpcProcess) : Prop :=
  Sysv.Owned s₀ p.sys (fun path => (∃ sem ∈ p.sems, sem.OwnsFile path) ∨ ∃ shm ∈ p.shms, shm.OwnsFile path)
    fun id => (∃ sem ∈ p.sems, sem.OwnsSem id) ∨ ∃ shm ∈ p.shms, shm.OwnsSem id

variable {pf} {s₀ : SysState} {p : IpcProcess} {call : IpcCall} {α : Type} {l : List α} {i : ℕ}
  {a : α} {P : α → Prop}

theorem exists_mem_cons (h : (∃ b ∈ l, P b) ∨ P a) : ∃ b ∈ a :: l, P b := by
  rcases h with ⟨b, hb, hP⟩ | hP
  · exact ⟨b, List.mem_cons_of_mem _ hb, hP⟩
  · exact ⟨a, List.mem_cons_self, hP⟩

theorem exists_mem_eraseIdx (ha : l[i]? = some a) (h : ∃ b ∈ l, P b) : (∃ b ∈ l.eraseIdx i, P b) ∨ P a := by
  obtain ⟨b, hb, hP⟩ := h
  obtain ⟨j, hj⟩ := List.mem_iff_getElem?.1 hb
  by_cases hij : j = i
  · subst hij
    cases ha.symm.trans hj
    exact .inr hP
  · exact .inl ⟨b, List.mem_eraseIdx_iff_getElem?.2 ⟨j, hij, hj⟩, hP⟩

theorem ipcStep_owned (h : p.Owned s₀) (htaken : KeyFileTaken pf p call) :
    ∃ o p', ipcStep pf call p = some (o, p') ∧ p'.Owned s₀ := by
  cases call with
  | semaphoreNew name init_val mode =>
    obtain ⟨r, s, hexec, hr⟩ := ends_pSemaphoreNew_owned name init_val mode h htaken
    cases r with
    | error e =>
      refine ⟨false, { p with sys := s }, ?_, hr⟩
      rw [ipcStep, hexec]
      rfl
    | ok sem =>
      refine ⟨true, { p with sys := s, sems := sem :: p.sems }, ?_, hr.mono (fun path hp => ?_) fun id hid => ?_⟩
      · rw [ipcStep, hexec]
        rfl
      · rcases hp with (hp | hp) | hp
        · exact .inl (exists_mem_cons (.inl hp))
        · exact .inr hp
        · exact .inl (exists_mem_cons (.inr hp))
      · rcases hid with (hid | hid) | hid
        · exact .inl (exists_mem_cons (.inl hid))
        · exact .inr hid
        · exact .inl (exists_mem_cons (.inr hid))
  | semaphoreFree i =>
    cases hsem : p.sems[i]? with
    | none =>
      refine ⟨false, p, ?_, h⟩
      rw [ipcStep, hsem]
    | some sem =>
      have hown : Sysv.Owned s₀ p.sys (fun path => ((∃ sem ∈ p.sems.eraseIdx i, sem.OwnsFile path) ∨
          ∃ shm ∈ p.shms, shm.OwnsFile path) ∨ sem.OwnsFile path) fun id =>
            ((∃ sem ∈ p.sems.eraseIdx i, sem.OwnsSem id) ∨
            ∃ shm ∈ p.shms, shm.OwnsSem id) ∨ sem.OwnsSem id := by
        refine h.mono (fun path hp => ?_) fun id hid => ?_
        · rcases hp with hp | hp
          · exact (exists_mem_eraseIdx hsem hp).imp_left .inl
          · exact .inl (.inr hp)
        · rcases hid with hid | hid
          · exact (exists_mem_eraseIdx hsem hid).imp_left .inl
          · exact .inl (.inr hid)
      obtain ⟨_, s, hexec, hs⟩ := ends_pSemaphoreFree_owned sem hown
      refine ⟨false, { p with sys := s, sems := p.sems.eraseIdx i }, ?_, hs⟩
      rw [ipcStep, hsem]
      simp only [hexec]
      rfl
  | shmNew name size perms =>
    obtain ⟨r, s, hexec, hr⟩ := ends_pShmNew_owned name size perms h htaken
    cases r with
    | error e =>
      refine ⟨false, { p with sys := s }, ?_, hr⟩
      rw [ipcStep, hexec]
      rfl
    | ok shm =>
      refine ⟨true, { p with sys := s, shms := shm :: p.shms }, ?_, hr.mono (fun path hp => ?_) fun id hid => ?_⟩
      · rw [ipcStep, hexec]
        rfl
      · rcases hp with (hp | hp) | hp
        · exact .inl hp
        · exact .inr (exists_mem_cons (.inl hp))
        · exact .inr (exists_mem_cons (.inr hp))
      · rcases hid with (hid | hid) | hid
        · exact .inl hid
        · exact .inr (exists_mem_cons (.inl hid))
        · exact .inr (exists_mem_cons (.inr hid))
  | shmFree i =>
    cases hshm : p.shms[i]? with
    | none =>
      refine ⟨false, p, ?_, h⟩
      rw [ipcStep, hshm]
    | some shm =>
      have hown : Sysv.Owned s₀ p.sys (fun path => ((∃ sem ∈ p.sems, sem.OwnsFile path) ∨
          ∃ shm ∈ p.shms.eraseIdx i, shm.OwnsFile path) ∨ shm.OwnsFile path) fun id =>
            ((∃ sem ∈ p.sems, sem.OwnsSem id) ∨
            ∃ shm ∈ p.shms.eraseIdx i, shm.OwnsSem id) ∨ shm.OwnsSem id := by
        refine h.mono (fun path hp => ?_) fun id hid => ?_
        · rcases hp with hp | hp
          · exact .inl (.inl hp)
          · exact (exists_mem_eraseIdx hshm hp).imp_left .inr
        · rcases hid with hid | hid
          · exact .inl (.inl hid)
          · exact (exists_mem_eraseIdx hshm hid).imp_left .inr
      obtain ⟨_, s, hexec, hs⟩ := ends_pShmFree_owned shm hown
      refine ⟨false, { p with sys := s, shms := p.shms.eraseIdx i }, ?_, hs⟩
      rw [ipcStep, hshm]
      simp only [hexec]
      rfl

/-- **No debris, if no call creates a key file together with the object that has its key.**  When the
    process has freed its handles, all key files and semaphores of the system existed before its calls. -/
theorem sysv_no_debris (s₀ : SysState) (calls : List IpcCall)
    (htaken : Along (ipcStep pf) (KeyFileTaken pf) calls ⟨s₀, [], []⟩) :
    ∃ os p, run (ipcStep pf) calls ⟨s₀, [], []⟩ = some (os, p) ∧ (p.sems = [] → p.shms = [] →
      (∀ path n, p.sys.files.names path = some n → n < s₀.files.next) ∧
      ∀ key id, p.sys.semIds.names key = some id → id < s₀.semIds.next) := by
  have hstart : IpcProcess.Owned s₀ ⟨s₀, [], []⟩ :=
    ⟨fun path n hn => .inl (s₀.files.fresh path n hn), fun key id hid => .inl (s₀.semIds.fresh key id hid)⟩
  obtain ⟨os, p, hrun, howned⟩ := invariant (R := fun _ => IpcProcess.Owned s₀) htaken hstart
    fun _ _ _ h hok => ipcStep_owned h hok
  refine ⟨os, p, hrun, fun hsems hshms => ⟨fun path n hn => (howned.files path n hn).resolve_right ?_,
    fun key id hid => (howned.sems key id hid).resolve_right ?_⟩⟩
  · rw [hsems, hshms]
    simp
  · rw [hsems, hshms]
    simp

/-- A process that makes one semaphore and frees it holds no handle. -/
theorem sems_of_new_free {s : SysState} {name : List UInt8} {v : pint} {mode : PSemaphoreAccessMode}
    {os : List Bool}
    (h : run (ipcStep pf) [.semaphoreNew name v mode, .semaphoreFree 0] ⟨s, [], []⟩ = some (os, p)) :
    p.sems = [] ∧ p.shms = [] := by
  simp only [run, ipcStep] at h
  cases hnew : (pSemaphoreNew pf name v mode).exec sysCall s with
  | none =>
    rw [hnew] at h
    cases h
  | some x =>
    obtain ⟨r, s₁⟩ := x
    rw [hnew] at h
    cases r with
    | error e =>
      cases h
      exact ⟨rfl, rfl⟩
    | ok sem =>
      simp only [Option.bind_eq_bind, Option.bind_some, Option.pure_def, List.getElem?_cons_zero] at h
      cases hfree : (pSemaphoreFree sem).exec sysCall s₁ with
      | none =>
        rw [hfree] at h
        cases h
      | some y =>
        rw [hfree] at h
        cases h
        exact ⟨rfl, rfl⟩

/-- A system with the key file of the semaphore `name`, which a process left when it crashed. -/
def SysState.crashed (pf : Platform) (name : List UInt8) : SysState :=
  { SysState.empty with files := Registry.empty.create (semaphoreKey pf name) () }

theorem semTaken_crashed (pf : Platform) (name : List UInt8) :
    SemTaken (SysState.crashed pf name) (semaphoreKey pf name) := by
  intro hnone
  have hname : (SysState.crashed pf name).files.names (semaphoreKey pf name) = some 0 := Registry.names_create ..
  cases hname.symm.trans hnone

theorem sysv_no_debris_taken : ∃ os p, run (ipcStep ⟨.little, []⟩) [.semaphoreNew [97] 1 .create, .semaphoreFree 0]
    ⟨SysState.crashed ⟨.little, []⟩ [97], [], []⟩ = some (os, p) ∧
      (∀ path n, p.sys.files.names path = some n → n < 1) ∧ ∀ key id, p.sys.semIds.names key = some id →
      id < 0 := by
  obtain ⟨os, p, hrun, hclean⟩ := @sysv_no_debris ⟨.little, []⟩ (SysState.crashed ⟨.little, []⟩ [97])
    [.semaphoreNew [97] 1 .create, .semaphoreFree 0]
    (.cons (fun _ => semTaken_crashed _ _) fun _ => .cons trivial fun _ => trivial)
  obtain ⟨hsems, hshms⟩ := sems_of_new_free hrun
  exact ⟨os, p, hrun, hclean hsems hshms⟩

/-! ## A key file that is left -/

/-- A call that creates both makes a handle that owns the semaphore only. -/
theorem ends_createSemaphore_leaves {key : PString} {s : SysState} (sem : PSemaphore)
    (hkey : sem.platform_key = some key) (hsem : ¬ SemTaken s key.chars) :
    Ends sysCall (ppSemaphoreCreateHandle sem) s fun r s' => r.2 = .ok () ∧ r.1.file_created = false ∧
      s'.files.names key.chars = some s.files.next := by
  obtain ⟨hnone, hid⟩ := Classical.not_imp.1 hsem
  obtain ⟨block, file_created, sem_created, unix_key, platform_key, hdl, mode, init_val⟩ := sem
  obtain rfl : platform_key = some key := hkey
  have hfileKey : fileKey s key.chars = s.files.next := by
    rw [fileKey, hnone]
    rfl
  refine (ends_keyFile s key.chars).bind ?_
  rintro _ s₁ ⟨rfl, hfiles, hsems, -⟩
  have hname : s₁.files.names key.chars = some (fileKey s key.chars) := by
    rw [hfiles]
    exact names_withKeyFile ..
  refine Ends.bind_of (exec_ftok hname) (Ends.bind_of (exec_ppSemaphoreGet s₁ _) ?_)
  rw [hsems, Classical.not_not.1 hid]
  refine (ends_ppSemaphoreSetValue ..).mono ?_
  rintro _ s₂ ⟨rfl, -, hfiles', -⟩
  refine ⟨rfl, by simp [hnone], ?_⟩
  rw [hfiles', ← hfileKey]
  exact hname

theorem ends_pSemaphoreFree_files {sem : PSemaphore} {s : SysState} (hfile : sem.file_created = false) :
    Ends sysCall (pSemaphoreFree sem) s fun _ s' => s'.files = s.files := by
  obtain ⟨block, file_created, sem_created, unix_key, key, hdl, mode, init_val⟩ := sem
  obtain rfl : file_created = false := hfile
  cases key <;> cases hdl <;> cases sem_created <;> exact ⟨_, _, rfl, rfl⟩

/-- A semaphore with a new key file is made and freed: the key file stays. -/
theorem run_leaves {s : SysState} {name : List UInt8} {v : pint} (mode : PSemaphoreAccessMode) (hv : 0 ≤ v)
    (hsem : ¬ SemTaken s (semaphoreKey pf name)) :
    ∃ os p, run (ipcStep pf) [.semaphoreNew name v mode, .semaphoreFree 0] ⟨s, [], []⟩ = some (os, p) ∧
      p.sems = [] ∧
      p.shms = [] ∧ p.sys.files.names (semaphoreKey pf name) = some s.files.next := by
  obtain ⟨block, heap, hkey⟩ := exec_pIpcGetPlatformKey pf (append_semSuffix_ne name) false
    { s with heap := (s.heap.alloc ()).alloc () }
  have hnew : Ends sysCall (pSemaphoreNew pf name v mode) s fun r s' => ∃ sem, r = .ok sem ∧
    sem.file_created = false ∧
      s'.files.names (semaphoreKey pf name) = some s.files.next := by
    rw [pSemaphoreNew, if_neg (Int32.not_lt.2 hv)]
    refine Ends.bind_of (exec_pMalloc0 s) (Ends.bind_of (exec_pMalloc0 _) (Ends.bind_of hkey
      (Ends.bind_of (exec_pFree _ _) ((ends_createSemaphore_leaves _ rfl ?_).bind ?_))))
    · exact fun htaken => hsem htaken
    · rintro ⟨sem, r⟩ s' ⟨rfl, hfile, hname⟩
      exact Ends.pure ⟨sem, rfl, hfile, hname⟩
  obtain ⟨_, s₁, hexec, sem, rfl, hfile, hname⟩ := hnew
  obtain ⟨_, s₂, hfree, hfiles⟩ := ends_pSemaphoreFree_files (s := s₁) hfile
  refine ⟨[true, false], ⟨s₂, [], []⟩, ?_, rfl, rfl, hfiles ▸ hname⟩
  have hstep : ipcStep pf (.semaphoreNew name v mode) ⟨s, [], []⟩ = some (true, ⟨s₁, [sem], []⟩) := by
    rw [ipcStep, hexec]
    rfl
  have hstep' : ipcStep pf (.semaphoreFree 0) ⟨s₁, [sem], []⟩ = some (false, ⟨s₂, [], []⟩) := by
    simp only [ipcStep, List.getElem?_cons_zero, hfree]
    rfl
  rw [run_cons hstep, run_cons hstep']
  rfl

/-- From a system without objects: the key file of the semaphore is left. -/
theorem sysv_debris : ∃ os p, run (ipcStep ⟨.little, []⟩) [.semaphoreNew [97] 1 .create, .semaphoreFree 0]
    ⟨SysState.empty, [], []⟩ = some (os, p) ∧ p.sems = [] ∧ p.shms = [] ∧
      p.sys.files.names (semaphoreKey ⟨.little, []⟩ [97]) = some 0 :=
  run_leaves .create (by decide) fun htaken => htaken rfl rfl

end Plibsys.Sysv
