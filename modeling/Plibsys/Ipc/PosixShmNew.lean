/-
  What `p_shm_new` does with a segment that exists and with one that does not (POSIX).
-/
import Plibsys.Ipc.PosixShm
import Plibsys.Ipc.SemaphoreNew

namespace Plibsys.Posix

open Programs Registries SysState Prog

variable {s : SysState} {fuel : ℕ}

/-! ## Interrupted calls -/

/-- `shm_open (key, O_CREAT | O_EXCL | O_RDWR, ...)`, once it is not interrupted. -/
theorem exec_shmOpenExcl (key : Path) (hfuel : s.interrupts.length < fuel) :
    ∃ rest, rest.length ≤ s.interrupts.length ∧
      (retryEintr (sys (.shmOpenExcl key)) fuel).exec sysCall s =
        some (match s.shms.names key with
          | some _ => (.error .EEXIST, { s with interrupts := rest })
          | none => (.ok s.fds.next, { s with
              shms := s.shms.create key 0, fds := s.fds.alloc (some s.shms.next), interrupts := rest })) := by
  have hcall : ∀ s, (sys (.shmOpenExcl key)).exec sysCall s = some (s.interruptible fun s =>
      match s.shms.names key with
      | some _ => (.error .EEXIST, s)
      | none => (.ok s.fds.next, { s with shms := s.shms.create key 0, fds := s.fds.alloc (some s.shms.next) })) :=
    fun _ => rfl
  obtain ⟨rest, hle, hexec⟩ := exec_retryEintr hcall (fun rest => by cases s.shms.names key <;> simp) hfuel
  refine ⟨rest, hle, hexec.trans ?_⟩
  cases s.shms.names key <;> rfl

/-- `shm_open (key, O_RDWR, ...)` of an existing segment, once it is not interrupted. -/
theorem exec_shmOpen {key : Path} {i : ℕ} (hname : s.shms.names key = some i)
    (hfuel : s.interrupts.length < fuel) :
    ∃ rest, rest.length ≤ s.interrupts.length ∧ (retryEintr (sys (.shmOpen key)) fuel).exec sysCall s =
      some (.ok s.fds.next, { s with fds := s.fds.alloc (some i), interrupts := rest }) := by
  have hcall : ∀ s, (sys (.shmOpen key)).exec sysCall s = some (s.interruptible fun s =>
      match s.shms.names key with
      | some i => (.ok s.fds.next, { s with fds := s.fds.alloc (some i) })
      | none => (.error .ENOENT, s)) := fun _ => rfl
  obtain ⟨rest, hle, hexec⟩ := exec_retryEintr hcall (fun rest => by cases s.shms.names key <;> simp) hfuel
  refine ⟨rest, hle, hexec.trans ?_⟩
  dsimp only
  rw [hname]

/-- What `ppShmOpen` finds. -/
theorem exec_ppShmOpen (key : Path) (hfuel : s.interrupts.length < fuel) :
    ∃ rest, rest.length ≤ s.interrupts.length ∧ (ppShmOpen fuel key).exec sysCall s =
      some (match s.shms.names key with
        | some i => ((true, .ok s.fds.next), { s with fds := s.fds.alloc (some i), interrupts := rest })
        | none => ((false, .ok s.fds.next), { s with
            shms := s.shms.create key 0, fds := s.fds.alloc (some s.shms.next), interrupts := rest })) := by
  obtain ⟨rest, hle, hexcl⟩ := exec_shmOpenExcl key hfuel
  rcases hname : s.shms.names key with _ | i
  · rw [hname] at hexcl
    exact ⟨rest, hle, exec_bind_of hexcl⟩
  · rw [hname] at hexcl
    obtain ⟨rest', hle', hopen⟩ := exec_shmOpen (s := { s with interrupts := rest }) hname
      (Nat.lt_of_le_of_lt hle hfuel)
    exact ⟨rest', hle'.trans hle, (exec_bind_of hexcl).trans (exec_bind_of hopen)⟩

/-! ## Releasing handles -/

theorem ends_cleanSemaphore (sem : PSemaphore) :
    Ends sysCall (ppSemaphoreCleanHandle sem) s fun _ s' => s'.shms = s.shms ∧ s'.interrupts = s.interrupts := by
  rcases sem with ⟨block, created, _ | key, _ | hdl, mode, v⟩
  · exact ⟨_, _, rfl, rfl, rfl⟩
  · cases created <;> exact ⟨_, _, rfl, rfl, rfl⟩
  · exact ⟨_, _, rfl, rfl, rfl⟩
  · cases created with
    | false => exact ⟨_, _, rfl, rfl, rfl⟩
    | true =>
      refine Ends.perform (Ends.perform (Ends.pure ?_))
      rw [sysCall, sysCall]
      dsimp only
      split <;> exact ⟨rfl, rfl⟩

/-- A semaphore is released apart from the segments. -/
theorem ends_pSemaphoreFree (sem : PSemaphore) :
    Ends sysCall (pSemaphoreFree sem) s fun _ s' => s'.shms = s.shms ∧ s'.interrupts = s.interrupts := by
  refine (ends_cleanSemaphore sem).bind ?_
  rintro ⟨block, created, _ | key, hdl, mode, v⟩ s' ⟨hshms, hint⟩
  · exact ⟨_, _, rfl, hshms, hint⟩
  · exact ⟨_, _, rfl, hshms, hint⟩

theorem ends_unmap (shm : PShm) :
    Ends sysCall (ppShmUnmap shm) s fun _ s' => s'.shms = s.shms ∧ s'.interrupts = s.interrupts := by
  rcases shm with ⟨block, created, key, _ | addr, size, sem, perms⟩
  · exact Ends.pure ⟨rfl, rfl⟩
  · refine Ends.perform (Ends.pure ?_)
    rw [sysCall]
    split
    · split_ifs <;> exact ⟨rfl, rfl⟩
    · exact ⟨rfl, rfl⟩

/-- Only the one who created a segment removes its name. -/
theorem ends_unlink (shm : PShm) :
    Ends sysCall (ppShmUnlink shm) s fun _ s' =>
      (shm.shm_created = false → s'.shms = s.shms) ∧ s'.interrupts = s.interrupts := by
  rcases shm with ⟨block, _ | _, _ | key, addr, size, sem, perms⟩
  · exact Ends.pure ⟨fun _ => rfl, rfl⟩
  · exact Ends.pure ⟨fun _ => rfl, rfl⟩
  · exact Ends.pure ⟨fun _ => rfl, rfl⟩
  · refine Ends.perform (Ends.pure ⟨nofun, ?_⟩)
    rw [sysCall]
    split <;> rfl

theorem ends_freeSem (shm : PShm) :
    Ends sysCall (ppShmFreeSem shm) s fun _ s' => s'.shms = s.shms ∧ s'.interrupts = s.interrupts := by
  rcases shm with ⟨block, created, key, addr, size, _ | sem, perms⟩
  · exact Ends.pure ⟨rfl, rfl⟩
  · exact ends_pSemaphoreFree sem

theorem ends_cleanShm (shm : PShm) :
    Ends sysCall (ppShmCleanHandle shm) s fun _ s' =>
      (shm.shm_created = false → s'.shms = s.shms) ∧ s'.interrupts = s.interrupts := by
  refine (ends_unmap shm).bind fun _ s₁ ⟨hshms₁, hint₁⟩ => ?_
  refine (ends_unlink shm).bind fun _ s₂ ⟨hshms₂, hint₂⟩ => ?_
  refine (ends_freeSem shm).bind fun _ s₃ ⟨hshms₃, hint₃⟩ => Ends.pure ⟨fun hcreated => ?_, ?_⟩
  · rw [hshms₃, hshms₂ hcreated, hshms₁]
  · rw [hint₃, hint₂, hint₁]

/-- A handle of a segment that someone else created is released apart from the segments. -/
theorem ends_pShmFree (shm : PShm) :
    Ends sysCall (pShmFree shm) s fun _ s' =>
      (shm.shm_created = false → s'.shms = s.shms) ∧ s'.interrupts = s.interrupts := by
  refine (ends_cleanShm shm).bind ?_
  rintro ⟨block, created, _ | key, addr, size, sem, perms⟩ s' h
  · exact ⟨_, _, rfl, h⟩
  · exact ⟨_, _, rfl, h⟩

theorem ends_shmFailed (shm : PShm) (e : Errno) (message : String) :
    Ends sysCall (shmFailed shm e message) s fun r s' =>
      r.2 = .error (lastError e message) ∧ s'.interrupts = s.interrupts :=
  (ends_cleanShm shm).bind fun _ _ h => Ends.pure ⟨rfl, h.2⟩

/-! ## The handle -/

variable {pf : Platform} {shm : PShm} {key : PString} {i : ℕ}

/-- The semaphore of a segment. -/
theorem ends_pSemaphoreNew (name : List UInt8) (mode : PSemaphoreAccessMode) (hfuel : s.interrupts.length < fuel) :
    Ends sysCall (pSemaphoreNew pf fuel name 1 mode) s fun r s' =>
      s'.shms = s.shms ∧ s'.interrupts.length ≤ s.interrupts.length ∧
        (mode = .open ∨ s.sems.names (semaphoreKey pf name) = none → ∃ sem, r = .ok sem) := by
  rcases hname : s.sems.names (semaphoreKey pf name) with _ | i
  · obtain ⟨sem, heap, rest, hle, hexec, -⟩ := exec_pSemaphoreNew_new (v := 1) mode (by decide) hfuel hname
    exact ⟨_, _, hexec, rfl, hle, fun _ => ⟨sem, rfl⟩⟩
  · cases mode with
    | «open» =>
      obtain ⟨sem, heap, rest, hle, hexec, -⟩ := exec_pSemaphoreNew_open (v := 1) (by decide) hfuel hname
      exact ⟨_, _, hexec, rfl, hle, fun _ => ⟨sem, rfl⟩⟩
    | create =>
      obtain ⟨heap, rest, hle, hexec⟩ := exec_pSemaphoreNew_create (v := 1) (by decide) hfuel hname
      refine ⟨_, _, hexec, rfl, hle, ?_⟩
      rintro (hmode | hnone)
      · cases hmode
      · cases hnone

theorem exec_mmap {fd : ℕ} {size : psize} (hfd : s.fds.get fd = some (some i)) (hsize : size ≠ 0) :
    (sys (.mmap fd size)).exec sysCall s =
      some (.ok s.maps.next, { s with maps := s.maps.alloc (i, pages size) }) := by
  show some (sysCall (.mmap fd size) s) = _
  rw [sysCall, hfd]
  dsimp only
  rw [if_neg hsize]

theorem exec_close {fd : ℕ} {target : Option ℕ} (hfd : s.fds.get fd = some target) :
    (sys (.close fd)).exec sysCall s = some (.ok (), { s with fds := s.fds.free fd }) := by
  show some (sysCall (.close fd) s) = _
  rw [sysCall, hfd]

/-- An existing segment is mapped. -/
theorem ends_attach_exists {fd : ℕ} (hfd : s.fds.get fd = some (some i)) (hsize : s.shms.value i ≠ 0)
    (hfuel : s.interrupts.length < fuel) :
    Ends sysCall (ppShmAttach pf fuel shm key fd true) s fun r s' =>
      s'.shms = s.shms ∧ s'.interrupts.length ≤ s.interrupts.length ∧
        ∃ addr sem, r = ({ shm with size := s.shms.value i, addr := some addr, sem := some sem }, .ok ()) := by
  have hset : (ppShmSetSize shm fd true).exec sysCall s =
      some (({ shm with size := s.shms.value i }, .ok ()), s) := by
    have hstat : (sys (.fstat fd)).exec sysCall s = some (.ok (s.shms.value i), s) := by
      show some (sysCall (.fstat fd) s) = _
      rw [sysCall, hfd]
    exact exec_bind_of hstat
  refine Ends.bind_of hset (Ends.bind_of (exec_mmap hfd hsize) (Ends.bind_of (exec_close hfd) ?_))
  rw [if_pos rfl]
  refine (ends_pSemaphoreNew _ .open (by exact hfuel)).bind ?_
  rintro _ s' ⟨hshms, hle, hopen⟩
  obtain ⟨sem, rfl⟩ := hopen (.inl rfl)
  exact Ends.pure ⟨hshms, hle, _, sem, rfl⟩

/-- The path of the semaphore of a segment. -/
def shmSemaphoreKey (pf : Platform) (key : Path) : Path := semaphoreKey pf (stringBytes key)

variable (pf s) in
/-- A new segment of that size can be created. -/
def Creatable (key : Path) (size : psize) : Prop :=
  size ≠ 0 ∧ size.toNat < 2 ^ 63 ∧ s.sems.names (shmSemaphoreKey pf key) = none

theorem exec_ppShmSetSize_new {fd : ℕ} (hfd : s.fds.get fd = some (some i)) (hfit : shm.size.toNat < 2 ^ 63) :
    (ppShmSetSize shm fd false).exec sysCall s =
      some ((shm, .ok ()), { s with shms := s.shms.set i shm.size }) := by
  have htruncate : (sys (.ftruncate fd shm.size)).exec sysCall s =
      some (.ok (), { s with shms := s.shms.set i shm.size }) := by
    show some (sysCall (.ftruncate fd shm.size) s) = _
    rw [sysCall, hfd]
    dsimp only
    rw [if_pos hfit]
  exact exec_bind_of htruncate

/-- A new segment gets its size, or the call fails. -/
theorem ends_attach_new {fd : ℕ} (hfd : s.fds.get fd = some (some i)) (hfuel : s.interrupts.length < fuel) :
    Ends sysCall (ppShmAttach pf fuel shm key fd false) s fun r s' =>
      (¬ Creatable s pf key.chars shm.size ∧ ∃ e, r.2 = .error e) ∨ shm.size ≠ 0 ∧
        s'.shms = s.shms.set i shm.size ∧
        s'.interrupts.length ≤ s.interrupts.length ∧
        ∃ addr sem, r = ({ shm with addr := some addr, sem := some sem }, .ok ()) := by
  by_cases hlarge : shm.size.toNat < 2 ^ 63
  · refine Ends.bind_of (exec_ppShmSetSize_new hfd hlarge) ?_
    by_cases hsize : shm.size = 0
    · have hmap : (sys (.mmap fd shm.size)).exec sysCall { s with shms := s.shms.set i shm.size } =
          some (.error .EINVAL, { s with shms := s.shms.set i shm.size }) := by
        show some (sysCall (.mmap fd shm.size) { s with shms := s.shms.set i shm.size }) = _
        rw [sysCall, hfd]
        dsimp only
        rw [if_pos hsize]
      refine Ends.bind_of hmap (Ends.bind_of (exec_close hfd) ?_)
      exact (ends_shmFailed ..).mono fun _ _ h => .inl ⟨fun hc => hc.1 hsize, _, h.1⟩
    · refine Ends.bind_of (exec_mmap hfd hsize) (Ends.bind_of (exec_close hfd) ?_)
      rw [if_neg Bool.false_ne_true]
      refine (ends_pSemaphoreNew _ .create (by exact hfuel)).bind ?_
      rintro (e | sem) s' ⟨hshms, hle, hsem⟩
      · refine (ends_cleanShm _).bind fun _ _ _ => Ends.pure (.inl ⟨fun hc => ?_, e, rfl⟩)
        obtain ⟨sem, hsem⟩ := hsem (.inr hc.2.2)
        cases hsem
      · exact Ends.pure (.inr ⟨hsize, hshms, hle, _, sem, rfl⟩)
  · have hset : (ppShmSetSize shm fd false).exec sysCall s =
        some ((shm, .error (.EINVAL, "Failed to call ftruncate() to set memory segment size")), s) := by
      have htruncate : (sys (.ftruncate fd shm.size)).exec sysCall s = some (.error .EINVAL, s) := by
        show some (sysCall (.ftruncate fd shm.size) s) = _
        rw [sysCall, hfd]
        dsimp only
        rw [if_neg hlarge]
      exact exec_bind_of htruncate
    refine Ends.bind_of hset (Ends.bind_of (exec_close hfd) ?_)
    exact (ends_shmFailed ..).mono fun _ _ h => .inl ⟨fun hc => hlarge hc.2.1, _, h.1⟩

variable (pf shm) in
/-- A segment that exists. -/
theorem ends_createHandle_exists (hkey : shm.platform_key = some key) (hname : s.shms.names key.chars = some i)
    (hsize : s.shms.value i ≠ 0) (hfuel : s.interrupts.length < fuel) :
    Ends sysCall (ppShmCreateHandle pf fuel shm) s fun r s' =>
      s'.shms = s.shms ∧ s'.interrupts.length ≤ s.interrupts.length ∧
        ∃ addr sem, r = ({ shm with size := s.shms.value i, addr := some addr, sem := some sem }, .ok ()) := by
  obtain ⟨rest, hle, hopen⟩ := exec_ppShmOpen key.chars hfuel
  rw [hname] at hopen
  rw [ppShmCreateHandle, hkey]
  refine Ends.bind_of hopen ?_
  refine (ends_attach_exists (s := { s with fds := s.fds.alloc (some i), interrupts := rest })
    (Table.get_alloc ..) hsize (Nat.lt_of_le_of_lt hle hfuel)).mono ?_
  rintro _ s' ⟨hshms, hle', addr, sem, rfl⟩
  exact ⟨hshms, hle'.trans hle, addr, sem, by rw [hkey]⟩

variable (pf shm) in
/-- A segment that does not exist. -/
theorem ends_createHandle_new (hkey : shm.platform_key = some key) (hname : s.shms.names key.chars = none)
    (hfuel : s.interrupts.length < fuel) :
    Ends sysCall (ppShmCreateHandle pf fuel shm) s fun r s' =>
      (¬ Creatable s pf key.chars shm.size ∧ ∃ e, r.2 = .error e) ∨ shm.size ≠ 0 ∧
        s'.shms.names key.chars = some s.shms.next ∧ s'.shms.value s.shms.next = shm.size ∧
        s'.interrupts.length ≤ s.interrupts.length ∧
        ∃ addr sem, r = ({ shm with shm_created := true, addr := some addr, sem := some sem }, .ok ()) := by
  obtain ⟨rest, hle, hopen⟩ := exec_ppShmOpen key.chars hfuel
  rw [hname] at hopen
  rw [ppShmCreateHandle, hkey]
  refine Ends.bind_of hopen ?_
  refine (ends_attach_new (s := { s with
      shms := s.shms.create key.chars 0, fds := s.fds.alloc (some s.shms.next), interrupts := rest })
    (Table.get_alloc ..) (Nat.lt_of_le_of_lt hle hfuel)).mono ?_
  rintro r s' (herror | ⟨hsize, hshms, hle', addr, sem, rfl⟩)
  · exact .inl herror
  · refine .inr ⟨hsize, ?_, ?_, hle'.trans hle, addr, sem, rfl⟩
    · rw [hshms, Registry.names_set, Registry.names_create]
    · rw [hshms, Registry.value_set]

/-! ## The segment -/

/-- The key of a segment. -/
def shmKey (pf : Platform) (name : List UInt8) : Path := platformKey pf (name ++ shmSuffix) true

variable (s fuel pf) in
/-- What happens to the handle decides about the call. -/
theorem exec_pShmNew (name : List UInt8) (size : psize) (perms : PShmAccessPerms) :
    ∃ block key heap, key.chars = shmKey pf name ∧
      (pShmNew pf fuel name size perms).exec sysCall s =
        ((ppShmCreateHandle pf fuel ⟨block, false, some key, none, size, none, perms⟩).exec sysCall
          { s with heap := heap }).bind fun r => (match r.1.2 with
            | .error e => do
              pShmFree r.1.1
              return .error e
            | .ok () => return .ok (if r.1.1.size > size ∧ size ≠ 0 then { r.1.1 with size := size } else r.1.1)
              : SysM (Except PError PShm)).exec sysCall r.2 := by
  obtain ⟨block, heap, hkey⟩ := exec_pIpcGetPlatformKey pf (append_shmSuffix_ne name) true
    { s with heap := (s.heap.alloc ()).alloc () }
  refine ⟨s.heap.next, ⟨block, shmKey pf name⟩, heap.free (s.heap.next + 1), rfl, ?_⟩
  rw [pShmNew, exec_bind_of (exec_pMalloc0 s)]
  dsimp only
  rw [exec_bind_of (exec_pMalloc0 _)]
  dsimp only
  rw [exec_bind_of hkey, exec_bind_of (exec_pFree _ _), exec_bind]
  congr 1
  funext ⟨⟨shm, r⟩, s'⟩
  rcases r with e | ⟨⟩
  · rfl
  · dsimp only
    split <;> rfl

variable {name : List UInt8} {n size : psize} {perms : PShmAccessPerms}

variable (pf fuel name n s) in
/-- The name has a segment of `n` bytes. -/
structure HasSegment : Prop where
  interrupts : s.interrupts.length < fuel
  segment : ∃ i, s.shms.names (shmKey pf name) = some i ∧ s.shms.value i = n
  size_ne : n ≠ 0

theorem HasSegment.of_shms {s' : SysState} (h : HasSegment s fuel pf name n) (hshms : s'.shms = s.shms)
    (hint : s'.interrupts.length ≤ s.interrupts.length) : HasSegment s' fuel pf name n :=
  ⟨Nat.lt_of_le_of_lt hint h.interrupts, hshms ▸ h.segment, h.size_ne⟩

/-- A segment that exists is opened, with a size that is at most the requested one. -/
theorem ends_pShmNew_exists (h : HasSegment s fuel pf name n) :
    Ends sysCall (pShmNew pf fuel name size perms) s fun r s' =>
      HasSegment s' fuel pf name n ∧ ∃ shm, r = .ok shm ∧ shm.shm_created = false ∧
        shm.size = if n > size ∧ size ≠ 0 then size else n := by
  obtain ⟨block, key, heap, hkey, hexec⟩ := exec_pShmNew s fuel pf name size perms
  obtain ⟨i, hname, rfl⟩ := h.segment
  obtain ⟨r, s', hcreate, hshms, hle, addr, sem, rfl⟩ := ends_createHandle_exists pf
    ⟨block, false, some key, none, size, none, perms⟩ (s := { s with heap := heap }) rfl (hkey ▸ hname)
    h.size_ne h.interrupts
  rw [hcreate] at hexec
  refine ⟨_, s', hexec, h.of_shms hshms hle, _, rfl, ?_⟩
  dsimp only
  split <;> exact ⟨rfl, rfl⟩

/-- A new segment has the requested size. -/
theorem ends_pShmNew_new (hname : s.shms.names (shmKey pf name) = none) (hfuel : s.interrupts.length < fuel) :
    Ends sysCall (pShmNew pf fuel name size perms) s fun r s' =>
      (¬ Creatable s pf (shmKey pf name) size ∧ ∃ e, r = .error e) ∨
        HasSegment s' fuel pf name size ∧ ∃ shm, r = .ok shm ∧ shm.size = size := by
  obtain ⟨block, key, heap, hkey, hexec⟩ := exec_pShmNew s fuel pf name size perms
  obtain ⟨⟨shm, r⟩, s', hcreate, ⟨hnot, e, rfl⟩ | ⟨hsize, hnew, hvalue, hle, addr, sem, hr⟩⟩ :=
    ends_createHandle_new pf ⟨block, false, some key, none, size, none, perms⟩ (s := { s with heap := heap })
      rfl (hkey ▸ hname) hfuel
  · rw [hcreate] at hexec
    obtain ⟨_, s'', hfree, -⟩ := ends_pShmFree (s := s') shm
    exact ⟨_, s'', hexec.trans (exec_bind_of hfree), .inl ⟨hkey ▸ hnot, e, rfl⟩⟩
  · cases hr
    rw [hcreate] at hexec
    refine ⟨_, s', hexec, .inr ⟨⟨Nat.lt_of_le_of_lt hle hfuel, ⟨_, hkey ▸ hnew, hvalue⟩, hsize⟩, _, rfl, ?_⟩⟩
    split <;> rfl

end Plibsys.Posix
