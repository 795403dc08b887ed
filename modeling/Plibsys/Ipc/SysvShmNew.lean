/-
  What `p_shm_new` does with a segment that exists and with one that does not (System V).
-/
import Plibsys.Ipc.SysvShm

namespace Plibsys.Sysv

open Programs Registries SysState Prog

variable {s s' s'' : SysState}

/-! ## Keys -/

/-- The key files stay, and so do the segments. -/
structure KeepsShm (s s' : SysState) : Prop where
  files : ∀ path i, s.files.names path = some i → s'.files.names path = some i
  shmIds : s'.shmIds = s.shmIds
  nattch : s'.nattch = s.nattch
  attached : s'.attached = s.attached

theorem KeepsShm.trans (h : KeepsShm s s') (h' : KeepsShm s' s'') : KeepsShm s s'' where
  files path i hi := h'.files path i (h.files path i hi)
  shmIds := h'.shmIds.trans h.shmIds
  nattch := h'.nattch.trans h.nattch
  attached := h'.attached.trans h.attached

/-- The System V key of a file, which may have to be created. -/
def fileKey (s : SysState) (path : Path) : ℕ := (s.files.names path).getD s.files.next

variable (s) in
/-- The key file is there after the call. -/
theorem ends_createKeyFile (path : Path) :
    Ends sysCall (pIpcUnixCreateKeyFile path) s fun r s' =>
      KeepsShm s s' ∧ s'.semIds = s.semIds ∧ s'.files.names path = some (fileKey s path) ∧
        ∃ built, r = .ok built ∧ ((∃ i, s.files.names path = some i) → s' = s ∧ built = true) := by
  rcases hname : s.files.names path with _ | i
  · have hopen : (sys (.openExcl path)).exec sysCall s = some (.ok s.fds.next, { s with
        files := s.files.create path (), fds := s.fds.alloc none }) := by
      show some (sysCall (.openExcl path) s) = _
      rw [sysCall, hname]
      rfl
    have hclose : (sys (.close s.fds.next)).exec sysCall { s with
        files := s.files.create path (), fds := s.fds.alloc none } = some (.ok (), { s with
          files := s.files.create path (), fds := (s.fds.alloc none).free s.fds.next }) := by
      show some (sysCall (.close s.fds.next) _) = _
      rw [sysCall]
      dsimp only
      rw [Table.get_alloc]
    refine Ends.bind_of hopen (Ends.bind_of hclose (Ends.pure ⟨⟨?_, rfl, rfl, rfl⟩, rfl, ?_, false, rfl, nofun⟩))
    · intro p i hi
      refine (Function.update_of_ne ?_ ..).trans hi
      rintro rfl
      cases hname.symm.trans hi
    · rw [fileKey, hname]
      exact Registry.names_create ..
  · have hopen : (sys (.openExcl path)).exec sysCall s = some (.error .EEXIST, s) := by
      show some (sysCall (.openExcl path) s) = _
      rw [sysCall, hname]
    refine Ends.bind_of hopen (Ends.pure
      ⟨⟨fun _ _ h => h, rfl, rfl, rfl⟩, rfl, ?_, true, rfl, fun _ => ⟨rfl, rfl⟩⟩)
    rw [fileKey, hname]
    rfl

theorem exec_ftok {path : Path} {i : ℕ} (hi : s.files.names path = some i) :
    (pIpcUnixGetFtokKey path).exec sysCall s = some (.ok i, s) := by
  show some (sysCall (.ftok path) s) = _
  rw [sysCall, lookup, hi]
  rfl

/-! ## Semaphores -/

/-- The semaphore with a key file. -/
def HasSemaphore (s : SysState) (path : Path) : Prop :=
  ∃ i hdl, s.files.names path = some i ∧ s.semIds.names i = some hdl

variable (s) in
theorem exec_ppSemaphoreGet (unix_key : ℕ) :
    (ppSemaphoreGet unix_key).exec sysCall s = some (match s.semIds.names unix_key with
      | some hdl => ((true, .ok hdl), s)
      | none => ((false, .ok s.semIds.next), { s with semIds := s.semIds.create unix_key 0 })) := by
  rcases hname : s.semIds.names unix_key with _ | hdl
  · have hget : (sys (.semgetExcl unix_key)).exec sysCall s = some (.ok s.semIds.next, { s with
        semIds := s.semIds.create unix_key 0 }) := by
      show some (sysCall (.semgetExcl unix_key) s) = _
      rw [sysCall, hname]
    exact exec_bind_of hget
  · have hget : (sys (.semgetExcl unix_key)).exec sysCall s = some (.error .EEXIST, s) := by
      show some (sysCall (.semgetExcl unix_key) s) = _
      rw [sysCall, hname]
    have hopen : (sys (.semget unix_key)).exec sysCall s = some (.ok hdl, s) := by
      show some (sysCall (.semget unix_key) s) = _
      rw [sysCall, lookup, hname]
    exact (exec_bind_of hget).trans (exec_bind_of hopen)

variable (s) in
theorem ends_ppSemaphoreSetValue (sem : PSemaphore) (hdl : ℕ) :
    Ends sysCall (ppSemaphoreSetValue sem hdl) s fun r s' =>
      r = (sem, .ok ()) ∧ KeepsShm s s' ∧ s'.files = s.files ∧ s'.semIds.names = s.semIds.names := by
  rw [ppSemaphoreSetValue]
  split
  · exact Ends.perform (Ends.pure ⟨rfl, ⟨fun _ _ h => h, rfl, rfl, rfl⟩, rfl, rfl⟩)
  · exact Ends.pure ⟨rfl, ⟨fun _ _ h => h, rfl, rfl, rfl⟩, rfl, rfl⟩

variable {pf : Platform} {key : PString}

/-- There is a semaphore after the call; one that existed before is not taken over. -/
theorem ends_createSemaphore (sem : PSemaphore) (hkey : sem.platform_key = some key) :
    Ends sysCall (ppSemaphoreCreateHandle sem) s fun r s' =>
      KeepsShm s s' ∧ HasSemaphore s' key.chars ∧ r.2 = .ok () ∧
        (HasSemaphore s key.chars → r.1.sem_created = sem.sem_created ∧ r.1.file_created = sem.file_created) := by
  rw [ppSemaphoreCreateHandle, hkey]
  refine (ends_createKeyFile s key.chars).bind ?_
  rintro _ s₁ ⟨hkeep, hsems, hi, built, rfl, hexists⟩
  generalize fileKey s key.chars = i at hi
  refine Ends.bind_of (exec_ftok hi) (Ends.bind_of (exec_ppSemaphoreGet s₁ i) ?_)
  rcases hname : s₁.semIds.names i with _ | hdl
  · refine (ends_ppSemaphoreSetValue ..).mono ?_
    rintro _ s₂ ⟨rfl, hkeep', hfiles, hnames⟩
    refine ⟨hkeep.trans ?_, ⟨i, s₁.semIds.next, ?_, ?_⟩, rfl, ?_⟩
    · exact ⟨hkeep'.files, hkeep'.shmIds, hkeep'.nattch, hkeep'.attached⟩
    · rw [hfiles]
      exact hi
    · rw [hnames]
      exact Registry.names_create ..
    · rintro ⟨j, hdl, hj, hhdl⟩
      obtain ⟨rfl, -⟩ := hexists ⟨j, hj⟩
      rw [hj] at hi
      cases hi
      cases hname.symm.trans hhdl
  · refine (ends_ppSemaphoreSetValue ..).mono ?_
    rintro _ s₂ ⟨rfl, hkeep', hfiles, hnames⟩
    refine ⟨hkeep.trans hkeep', ⟨i, hdl, hfiles ▸ hi, hnames ▸ hname⟩, rfl, ?_⟩
    rintro ⟨j, hdl', hj, -⟩
    obtain ⟨-, rfl⟩ := hexists ⟨j, hj⟩
    exact ⟨rfl, rfl⟩

/-- The path of the key file of a semaphore. -/
def semaphoreKey (pf : Platform) (name : List UInt8) : Path := platformKey pf (name ++ semSuffix) false

variable (s pf) in
theorem ends_pSemaphoreNew (name : List UInt8) (mode : PSemaphoreAccessMode) :
    Ends sysCall (pSemaphoreNew pf name 1 mode) s fun r s' =>
      KeepsShm s s' ∧ HasSemaphore s' (semaphoreKey pf name) ∧ ∃ sem, r = .ok sem ∧
        (HasSemaphore s (semaphoreKey pf name) → sem.sem_created = false ∧ sem.file_created = false) := by
  obtain ⟨block, heap, hkey⟩ := exec_pIpcGetPlatformKey pf (append_semSuffix_ne name) false
    { s with heap := (s.heap.alloc ()).alloc () }
  rw [pSemaphoreNew, if_neg (by decide)]
  refine Ends.bind_of (exec_pMalloc0 s) (Ends.bind_of (exec_pMalloc0 _) (Ends.bind_of hkey
    (Ends.bind_of (exec_pFree _ _) ((ends_createSemaphore _ rfl).bind ?_))))
  rintro ⟨sem, r⟩ s' ⟨hkeep, hhas, rfl, hcreated⟩
  exact Ends.pure ⟨⟨hkeep.files, hkeep.shmIds, hkeep.nattch, hkeep.attached⟩, hhas, sem, rfl, hcreated⟩

/-- A semaphore that someone else created is released without a trace. -/
theorem exec_pSemaphoreFree {sem : PSemaphore} (hsem : sem.sem_created = false ∧ sem.file_created = false) :
    ∃ heap, (pSemaphoreFree sem).exec sysCall s = some ((), { s with heap := heap }) := by
  obtain ⟨block, file_created, sem_created, unix_key, key, hdl, mode, v⟩ := sem
  obtain ⟨rfl, rfl⟩ := hsem
  rcases key with _ | key <;> rcases hdl with _ | hdl <;> exact ⟨_, rfl⟩

/-! ## Segments -/

variable (s pf) in
/-- A segment is attached, and has a semaphore. -/
theorem ends_attach (shm : PShm) (key : PString) (hdl : ℕ) (is_exists : Bool) :
    Ends sysCall (ppShmAttach pf shm key hdl is_exists) s fun r s' => ∃ addr sem,
      r = ({ shm with size := s.shmIds.value hdl, addr := some addr, sem := some sem }, .ok ()) ∧
        (∀ path i, s.files.names path = some i → s'.files.names path = some i) ∧
        s'.shmIds = s.shmIds ∧ s'.nattch = Function.update s.nattch hdl (s.nattch hdl + 1) ∧
        s'.attached.get addr = some hdl ∧ HasSemaphore s' (semaphoreKey pf (stringBytes key.chars)) ∧
        (HasSemaphore s (semaphoreKey pf (stringBytes key.chars)) →
          sem.sem_created = false ∧ sem.file_created = false) := by
  rw [ppShmAttach]
  refine Ends.perform (Ends.perform ((ends_pSemaphoreNew _ pf ..).bind ?_))
  rintro _ s' ⟨hkeep, hhas, sem, rfl, hcreated⟩
  refine Ends.pure ⟨s.attached.next, sem, rfl, hkeep.files, hkeep.shmIds, hkeep.nattch, ?_, hhas, hcreated⟩
  rw [hkeep.attached]
  exact Table.get_alloc ..

variable (s) in
theorem exec_ppShmGet (unix_key : ℕ) (size : psize) :
    (ppShmGet unix_key size).exec sysCall s = some (match s.shmIds.names unix_key with
      | some hdl => ((true, .ok hdl), s)
      | none =>
        if size = 0 then ((false, .error .EINVAL), s)
        else ((false, .ok s.shmIds.next), { s with
          shmIds := s.shmIds.create unix_key size, nattch := Function.update s.nattch s.shmIds.next 0 })) := by
  rcases hname : s.shmIds.names unix_key with _ | hdl
  · have hget : (sys (.shmgetExcl unix_key size)).exec sysCall s = some (if size = 0 then (.error .EINVAL, s)
        else (.ok s.shmIds.next, { s with
          shmIds := s.shmIds.create unix_key size, nattch := Function.update s.nattch s.shmIds.next 0 })) := by
      show some (sysCall (.shmgetExcl unix_key size) s) = _
      rw [sysCall, hname]
    dsimp only
    split_ifs at hget ⊢ <;> exact exec_bind_of hget
  · have hget : (sys (.shmgetExcl unix_key size)).exec sysCall s = some (.error .EEXIST, s) := by
      show some (sysCall (.shmgetExcl unix_key size) s) = _
      rw [sysCall, hname]
    have hopen : (sys (.shmget unix_key)).exec sysCall s = some (.ok hdl, s) := by
      show some (sysCall (.shmget unix_key) s) = _
      rw [sysCall, lookup, hname]
    exact (exec_bind_of hget).trans (exec_bind_of hopen)

/-- The path of the key file of a segment. -/
def shmKey (pf : Platform) (name : List UInt8) : Path := platformKey pf (name ++ shmSuffix) false

/-- The segment with a key file, that some handle has attached. -/
structure Attached (s : SysState) (path : Path) (i hdl : ℕ) (n : psize) : Prop where
  file : s.files.names path = some i
  segment : s.shmIds.names i = some hdl
  size : s.shmIds.value hdl = n
  attached : 1 ≤ s.nattch hdl

/-- What a handle of a segment that exists holds of it. -/
structure Lent (s : SysState) (shm : PShm) : Prop where
  file_created : shm.file_created = false
  sem : ∃ sem, shm.sem = some sem ∧ sem.sem_created = false ∧ sem.file_created = false
  addr : ∃ addr hdl, shm.addr = some addr ∧ shm.shm_hdl = some hdl ∧ s.attached.get addr = some hdl ∧
    2 ≤ s.nattch hdl

variable (pf) in
/-- A segment that exists. -/
theorem ends_createHandle_exists (shm : PShm) (hkey : shm.platform_key = some key) {i hdl : ℕ} {n : psize}
    (h : Attached s key.chars i hdl n) (hsem : HasSemaphore s (semaphoreKey pf (stringBytes key.chars)))
    (hcreated : shm.file_created = false) :
    Ends sysCall (ppShmCreateHandle pf shm) s fun r s' =>
      Attached s' key.chars i hdl n ∧ HasSemaphore s' (semaphoreKey pf (stringBytes key.chars)) ∧
        Lent s' r.1 ∧ r.1.size = n ∧ r.2 = .ok () := by
  rw [ppShmCreateHandle, hkey]
  refine (ends_createKeyFile s key.chars).bind ?_
  rintro _ s₁ ⟨-, -, -, built, rfl, hexists⟩
  obtain ⟨rfl, rfl⟩ := hexists ⟨i, h.file⟩
  refine Ends.bind_of (exec_ftok h.file) (Ends.bind_of (exec_ppShmGet s₁ i _) ?_)
  rw [h.segment]
  refine (ends_attach s₁ pf ..).mono ?_
  rintro _ s₂ ⟨addr, sem, rfl, hfiles, hshmIds, hnattch, haddr, hhas, hsem'⟩
  have hn : s₂.nattch hdl = s₁.nattch hdl + 1 := by rw [hnattch, Function.update_self]
  refine ⟨⟨hfiles _ _ h.file, hshmIds ▸ h.segment, hshmIds ▸ h.size, ?_⟩, hhas, ⟨hcreated,
    ⟨sem, rfl, hsem' hsem⟩, addr, hdl, rfl, rfl, haddr, ?_⟩, h.size, rfl⟩
  · rw [hn]
    exact Nat.succ_pos _
  · rw [hn]
    exact Nat.succ_le_succ h.attached

/-- A handle without a segment is released. -/
theorem ends_cleanShm {shm : PShm} (haddr : shm.addr = none) (hsem : shm.sem = none) :
    Ends sysCall (ppShmCleanHandle shm) s fun r _ => r.addr = none ∧ r.sem = none := by
  obtain ⟨block, created, unix_key, key, hdl, addr, size, sem, perms⟩ := shm
  obtain rfl : addr = none := haddr
  obtain rfl : sem = none := hsem
  rcases created with _ | _
  · exact ⟨_, _, rfl, rfl, rfl⟩
  · rcases key with _ | key <;> exact ⟨_, _, rfl, rfl, rfl⟩

theorem ends_shmFailed {shm : PShm} (e : Errno) (message : String) (haddr : shm.addr = none)
    (hsem : shm.sem = none) :
    Ends sysCall (shmFailed shm e message) s fun r _ => r.1.addr = none ∧ r.1.sem = none ∧ ∃ e, r.2 = .error e :=
  (ends_cleanShm haddr hsem).bind fun _ _ h => Ends.pure ⟨h.1, h.2, _, rfl⟩

theorem ends_pShmFree {shm : PShm} (haddr : shm.addr = none) (hsem : shm.sem = none) :
    Ends sysCall (pShmFree shm) s fun _ _ => True := by
  refine (ends_cleanShm haddr hsem).bind ?_
  rintro ⟨block, created, unix_key, _ | key, hdl, addr, size, sem, perms⟩ s' -
  · exact ⟨_, _, rfl, trivial⟩
  · exact ⟨_, _, rfl, trivial⟩

variable (pf) in
/-- A segment that does not exist. -/
theorem ends_createHandle_new (shm : PShm) (hkey : shm.platform_key = some key)
    (hnew : s.shmIds.names (fileKey s key.chars) = none) (haddr : shm.addr = none) (hsem : shm.sem = none) :
    Ends sysCall (ppShmCreateHandle pf shm) s fun r s' =>
      (shm.size = 0 ∧ r.1.addr = none ∧ r.1.sem = none ∧ ∃ e, r.2 = .error e) ∨
        ((∃ i hdl, Attached s' key.chars i hdl shm.size) ∧
          HasSemaphore s' (semaphoreKey pf (stringBytes key.chars)) ∧ r.1.size = shm.size ∧ r.2 = .ok ()) := by
  rw [ppShmCreateHandle, hkey]
  refine (ends_createKeyFile s key.chars).bind ?_
  rintro _ s₁ ⟨hkeep, -, hi, built, rfl, -⟩
  rw [← hkeep.shmIds] at hnew
  generalize fileKey s key.chars = i at hi hnew
  refine Ends.bind_of (exec_ftok hi) ?_
  by_cases hsize : shm.size = 0
  · have hget := exec_ppShmGet s₁ i shm.size
    rw [hnew] at hget
    dsimp only at hget
    rw [if_pos hsize] at hget
    refine Ends.bind_of hget ((ends_shmFailed _ _ ?_ ?_).mono fun _ _ h => .inl ⟨hsize, h⟩)
    · exact haddr
    · exact hsem
  · have hget := exec_ppShmGet s₁ i shm.size
    rw [hnew] at hget
    dsimp only at hget
    rw [if_neg hsize] at hget
    refine Ends.bind_of hget ((ends_attach _ pf ..).mono ?_)
    rintro _ s₂ ⟨addr, sem, rfl, hfiles, hshmIds, hnattch, -, hhas, -⟩
    have hvalue : s₂.shmIds.value s₁.shmIds.next = shm.size := by rw [hshmIds, Registry.value_create]
    refine .inr ⟨⟨i, s₁.shmIds.next, hfiles _ _ hi, ?_, hvalue, ?_⟩, hhas, hshmIds ▸ hvalue, rfl⟩
    · rw [hshmIds, Registry.names_create]
    · rw [hnattch, Function.update_self]
      exact Nat.succ_pos _

variable {shm : PShm}

/-- A segment that others have attached stays when one handle is released. -/
theorem ends_pShmFree_lent (h : Lent s shm) :
    Ends sysCall (pShmFree shm) s fun _ s' =>
      s'.files = s.files ∧ s'.semIds = s.semIds ∧ s'.shmIds = s.shmIds ∧
        ∀ hdl, 1 ≤ s.nattch hdl → 1 ≤ s'.nattch hdl := by
  obtain ⟨block, created, unix_key, key, hdl, addr, size, sem, perms⟩ := shm
  obtain ⟨rfl, ⟨sem, rfl, hsem⟩, addr, hdl, rfl, rfl, hattached, hn⟩ := h
  have hdetach : (sys (.shmdt addr)).exec sysCall s = some (.ok (), { s with
      attached := s.attached.free addr, nattch := Function.update s.nattch hdl (s.nattch hdl - 1) }) := by
    show some (sysCall (.shmdt addr) s) = _
    rw [sysCall, hattached]
  have hstays : ∀ hdl', 1 ≤ s.nattch hdl' → 1 ≤ Function.update s.nattch hdl (s.nattch hdl - 1) hdl' := by
    intro hdl' h
    by_cases hne : hdl' = hdl
    · rw [hne, Function.update_self]
      exact Nat.le_sub_one_of_lt hn
    · rwa [Function.update_of_ne hne]
  have hne : ¬ Function.update s.nattch hdl (s.nattch hdl - 1) hdl = 0 :=
    Nat.pos_iff_ne_zero.1 (hstays hdl (Nat.le_of_succ_le hn))
  have hunmap : Ends sysCall (ppShmDetach addr hdl) s fun _ s' =>
      s' = { s with
        attached := s.attached.free addr, nattch := Function.update s.nattch hdl (s.nattch hdl - 1) } := by
    refine Ends.bind_of hdetach (Ends.perform ?_)
    rw [sysCall]
    dsimp only
    rw [if_neg hne]
    exact Ends.pure rfl
  refine Ends.bind (Q := fun _ s' => s'.files = s.files ∧ s'.semIds = s.semIds ∧ s'.shmIds = s.shmIds ∧
    ∀ hdl, 1 ≤ s.nattch hdl → 1 ≤ s'.nattch hdl) ?_ ?_
  · refine Ends.bind hunmap ?_
    rintro _ _ rfl
    obtain ⟨heap, hfree⟩ := exec_pSemaphoreFree (s := { s with
      attached := s.attached.free addr, nattch := Function.update s.nattch hdl (s.nattch hdl - 1) }) hsem
    exact Ends.bind_of (a := ()) (exec_pure ..) (Ends.bind_of hfree (Ends.pure ⟨rfl, rfl, rfl, hstays⟩))
  · rintro ⟨block, created, unix_key, _ | key, hdl, addr, size, sem, perms⟩ s' h
    · exact ⟨_, _, rfl, h⟩
    · exact ⟨_, _, rfl, h⟩

/-! ## The segment -/

variable (s pf) in
/-- What happens to the handle decides about the call. -/
theorem exec_pShmNew (name : List UInt8) (size : psize) (perms : PShmAccessPerms) :
    ∃ block key heap, key.chars = shmKey pf name ∧
      (pShmNew pf name size perms).exec sysCall s =
        ((ppShmCreateHandle pf ⟨block, false, none, some key, none, none, size, none, perms⟩).exec sysCall
          { s with heap := heap }).bind fun r => (match r.1.2 with
            | .error e => do
              pShmFree r.1.1
              return .error e
            | .ok () => return .ok (if r.1.1.size > size ∧ size ≠ 0 then { r.1.1 with size := size } else r.1.1)
              : SysM (Except PError PShm)).exec sysCall r.2 := by
  obtain ⟨block, heap, hkey⟩ := exec_pIpcGetPlatformKey pf (append_shmSuffix_ne name) false
    { s with heap := (s.heap.alloc ()).alloc () }
  refine ⟨s.heap.next, ⟨block, shmKey pf name⟩, heap.free (s.heap.next + 1), rfl, ?_⟩
  rw [pShmNew, exec_bind_of (exec_pMalloc0 s)]
  dsimp only
  rw [exec_bind_of (exec_pMalloc0 _)]
  dsimp only
  rw [exec_bind_of hkey, exec_bind_of (exec_pFree _ _), exec_bind]
  congr 1
  funext ⟨⟨shm, r⟩, s'⟩
  rcases r with e | ⟨⟩
  · rfl
  · dsimp only
    split <;> rfl

variable {name : List UInt8} {n size : psize} {perms : PShmAccessPerms}

variable (pf name n s) in
/-- The name has a segment of `n` bytes, and a semaphore. -/
structure HasSegment : Prop where
  segment : ∃ i hdl, Attached s (shmKey pf name) i hdl n
  sem : HasSemaphore s (semaphoreKey pf (stringBytes (shmKey pf name)))

/-- A segment that exists is opened, with a size that is at most the requested one. -/
theorem ends_pShmNew_exists (h : HasSegment s pf name n) :
    Ends sysCall (pShmNew pf name size perms) s fun r s' =>
      HasSegment s' pf name n ∧ ∃ shm, r = .ok shm ∧ Lent s' shm ∧
        shm.size = if n > size ∧ size ≠ 0 then size else n := by
  obtain ⟨block, key, heap, hkey, hexec⟩ := exec_pShmNew s pf name size perms
  obtain ⟨⟨i, hdl, hattached⟩, hsem⟩ := h
  rw [← hkey] at hattached hsem
  obtain ⟨⟨shm, r⟩, s', hcreate, hattached', hsem', hlent, rfl, rfl⟩ := ends_createHandle_exists pf
    (s := { s with heap := heap }) ⟨block, false, none, some key, none, none, size, none, perms⟩ rfl
    ⟨hattached.file, hattached.segment, hattached.size, hattached.attached⟩ hsem rfl
  rw [hcreate] at hexec
  refine ⟨_, s', hexec, ⟨⟨i, hdl, hkey ▸ hattached'⟩, hkey ▸ hsem'⟩, _, rfl, ?_⟩
  dsimp only
  split
  · exact ⟨⟨hlent.file_created, hlent.sem, hlent.addr⟩, rfl⟩
  · exact ⟨hlent, rfl⟩

/-- A new segment has the requested size. -/
theorem ends_pShmNew_new (hnew : s.shmIds.names (fileKey s (shmKey pf name)) = none) :
    Ends sysCall (pShmNew pf name size perms) s fun r s' =>
      (size = 0 ∧ ∃ e, r = .error e) ∨
        HasSegment s' pf name size ∧ ∃ shm, r = .ok shm ∧ shm.size = size := by
  obtain ⟨block, key, heap, hkey, hexec⟩ := exec_pShmNew s pf name size perms
  rw [← hkey] at hnew
  obtain ⟨⟨shm, r⟩, s', hcreate, ⟨hzero, haddr, hsem, e, rfl⟩ | ⟨⟨i, hdl, hattached⟩, hsem, hsize, rfl⟩⟩ :=
    ends_createHandle_new pf (s := { s with heap := heap })
      ⟨block, false, none, some key, none, none, size, none, perms⟩ rfl hnew rfl rfl
  · rw [hcreate] at hexec
    obtain ⟨_, s'', hfree, -⟩ := ends_pShmFree (s := s') haddr hsem
    exact ⟨_, s'', hexec.trans (exec_bind_of hfree), .inl ⟨hzero, e, rfl⟩⟩
  · rw [hcreate] at hexec
    refine ⟨_, s', hexec, .inr ⟨⟨⟨i, hdl, hkey ▸ hattached⟩, hkey ▸ hsem⟩, _, rfl, ?_⟩⟩
    dsimp only
    split
    · rfl
    · exact hsize

end Plibsys.Sysv
