/-
  The constructors of the library, with their accesses to memory and their checks: read-write
  locks (`prwlock-general.c`), and semaphores, segments and buffers over POSIX.

  Without the accesses and checks they are the functions of the other modules.
-/
import Plibsys.Ipc.Faults
import Plibsys.Shm.Geometry

namespace Plibsys.Faults

open Programs

/-! ## Read-write locks -/

structure PRWLock where
  /-- the memory of the object -/
  block : ℕ
  mutex : Option ℕ
  read_cv : Option ℕ
  write_cv : Option ℕ
  deriving DecidableEq, Repr

def pRwlockNew : ResM (Option PRWLock) := do
  let some ret ← pMalloc0 | return none
  let mutex ← mutexNew
  access ret
  -- a failure is logged, and the call goes on
  if mutex = none then
    pFree ret
  let read_cv ← condNew
  access ret
  if read_cv = none then
    access ret
    pMutexFree mutex
    pFree ret
  let write_cv ← condNew
  access ret
  if write_cv = none then
    access ret
    pCondVariableFree read_cv
    access ret
    pMutexFree mutex
    pFree ret
  return some ⟨ret, mutex, read_cv, write_cv⟩

/-! ## Keys -/

variable (pf : Platform)

/-- `p_ipc_get_platform_key` for POSIX, of a string in a block of memory. -/
def pIpcGetPlatformKey (block : ℕ) (name : List UInt8) : ResM (Option PString) := do
  let some sha1 ← pMalloc0 | return none
  access sha1
  let some context ← pMalloc0 | do
    pFree sha1
    return none
  access sha1
  access block
  access context
  let some hash_str ← Prog.ofOption (ipcHashString pf name) | do
    access sha1
    pFree context
    pFree sha1
    return none
  let hash_block ← pMalloc0
  if let some hash_block := hash_block then
    access hash_block
  access sha1
  pFree context
  pFree sha1
  let some hash_block := hash_block | return none
  access hash_block
  let some path_name ← pMalloc0 | do
    pFree hash_block
    return none
  access path_name
  access hash_block
  pFree hash_block
  return some ⟨path_name, '/' :: hash_str.take 13⟩

/-- A name of the caller, or a string of the library, is read. -/
def accessName : Option ℕ → ResM Unit
  | none => return ()
  | some block => access block

/-! ## Semaphores -/

def ppSemaphoreCleanHandle (sem : Posix.PSemaphore) : ResM Posix.PSemaphore := do
  access sem.block
  if let some hdl := sem.sem_hdl then
    let _ ← sys (.semClose hdl)
    access sem.block
    if sem.sem_created then
      if let some key := sem.platform_key then
        access key.block
        let _ ← sys (.semUnlink key.chars)
  access sem.block
  return { sem with sem_created := false, sem_hdl := none }

/-- One attempt to open an object: the name is read, and for semaphores the handle is stored. -/
def attempt (block : ℕ) (key : PString) (call : ResM (Except Errno ℕ)) : ResM (Except Errno ℕ) := do
  access key.block
  let r ← call
  access block
  return r

def ppSemaphoreCreateHandle (fuel : ℕ) (sem : Posix.PSemaphore) :
    ResM (Posix.PSemaphore × Except PError Unit) := do
  access sem.block
  let _ ← check sem.platform_key.isSome
  let some key := sem.platform_key
    | return (sem, .error ⟨.invalidArgument, 0, "Invalid input argument"⟩)
  let r ← retryEintr (attempt sem.block key (sys (.semOpenExcl key.chars sem.init_val.toNatClampNeg))) fuel
  let (sem_created, r) ←
    match r with
    | .error .EEXIST => do
      if sem.mode = .create then
        access key.block
        let _ ← sys (.semUnlink key.chars)
      let r ← retryEintr (attempt sem.block key (sys (.semOpen key.chars))) fuel
      pure (sem.sem_created, r)
    | .error e => pure (sem.sem_created, .error e)
    | .ok hdl => pure (true, .ok hdl)
  match r with
  | .ok hdl => return ({ sem with sem_created := sem_created, sem_hdl := some hdl }, .ok ())
  | .error e =>
    let sem ← ppSemaphoreCleanHandle { sem with sem_created := sem_created, sem_hdl := none }
    return (sem, .error (lastError e "Failed to call sem_open() to create semaphore"))

def pSemaphoreFree (sem : Posix.PSemaphore) : ResM Unit := do
  let sem ← ppSemaphoreCleanHandle sem
  access sem.block
  if let some key := sem.platform_key then
    pFree key.block
  pFree sem.block

/-- The name is at `owner`, if it is a string of the library. -/
def pSemaphoreNew (fuel : ℕ) (owner : Option ℕ) (name : List UInt8) (init_val : pint)
    (mode : PSemaphoreAccessMode) :
    ResM (Except PError Posix.PSemaphore) := do
  let _ ← check (0 ≤ init_val)
  if init_val < 0 then
    return .error ⟨.invalidArgument, 0, "Invalid input argument"⟩
  let some ret ← pMalloc0
    | return .error ⟨.noResources, 0, "Failed to allocate memory for semaphore"⟩
  accessName owner
  let some new_name ← pMalloc0 | do
    pFree ret
    return .error ⟨.noResources, 0, "Failed to allocate memory for semaphore"⟩
  accessName owner
  access new_name
  let platform_key ← pIpcGetPlatformKey pf new_name (name ++ semSuffix)
  access ret
  let sem : Posix.PSemaphore := ⟨ret, false, platform_key, none, mode, init_val⟩
  pFree new_name
  let (sem, r) ← ppSemaphoreCreateHandle fuel sem
  match r with
  | .error e =>
    pSemaphoreFree sem
    return .error e
  | .ok () => return .ok sem

/-! ## Segments -/

def ppShmUnmap (shm : Posix.PShm) : ResM Unit := do
  access shm.block
  if let some addr := shm.addr then
    let _ ← sys (.munmap addr shm.size)

def ppShmUnlink (shm : Posix.PShm) : ResM Unit := do
  access shm.block
  if shm.shm_created then
    if let some key := shm.platform_key then
      access key.block
      let _ ← sys (.shmUnlink key.chars)

def ppShmFreeSem (shm : Posix.PShm) : ResM Unit := do
  access shm.block
  if let some sem := shm.sem then
    pSemaphoreFree sem

def ppShmCleanHandle (shm : Posix.PShm) : ResM Posix.PShm := do
  ppShmUnmap shm
  ppShmUnlink shm
  ppShmFreeSem shm
  access shm.block
  return { shm with shm_created := false, addr := none, size := 0, sem := none }

def shmFailed (shm : Posix.PShm) (e : Errno) (message : String) : ResM (Posix.PShm × Except PError Unit) := do
  let shm ← ppShmCleanHandle shm
  return (shm, .error (lastError e message))

def ppShmSetSize (shm : Posix.PShm) (fd : ℕ) (is_exists : Bool) :
    ResM (Posix.PShm × Except (Errno × String) Unit) := do
  if is_exists then
    match ← sys (.fstat fd) with
    | .error e => return (shm, .error (e, "Failed to call fstat() to get memory segment size"))
    | .ok st_size =>
      access shm.block
      return ({ shm with size := st_size }, .ok ())
  else
    access shm.block
    match ← sys (.ftruncate fd shm.size) with
    | .error e => return (shm, .error (e, "Failed to call ftruncate() to set memory segment size"))
    | .ok () => return (shm, .ok ())

def ppShmOpen (fuel : ℕ) (block : ℕ) (key : PString) : ResM (Bool × Except Errno ℕ) := do
  let r ← retryEintr (attempt block key (sys (.shmOpenExcl key.chars))) fuel
  match r with
  | .error .EEXIST =>
    let r ← retryEintr (attempt block key (sys (.shmOpen key.chars))) fuel
    return (true, r)
  | r => return (false, r)

def ppShmAttach (fuel : ℕ) (shm : Posix.PShm) (key : PString) (fd : ℕ) (is_exists : Bool) :
    ResM (Posix.PShm × Except PError Unit) := do
  let (shm, sized) ← ppShmSetSize shm fd is_exists
  match sized with
  | .error (e, message) =>
    let _ ← sys (.close fd)
    shmFailed shm e message
  | .ok () =>
    access shm.block
    match ← sys (.mmap fd shm.size) with
    | .error e =>
      access shm.block
      let _ ← sys (.close fd)
      shmFailed { shm with addr := none } e "Failed to call mmap() to map memory segment"
    | .ok addr =>
      access shm.block
      let shm := { shm with addr := some addr }
      let _ ← sys (.close fd)
      match ← pSemaphoreNew pf fuel (some key.block) (stringBytes key.chars) 1
          (if is_exists then .open else .create) with
      | .error e =>
        let shm ← ppShmCleanHandle shm
        return (shm, .error e)
      | .ok sem =>
        access shm.block
        return ({ shm with sem := some sem }, .ok ())

def ppShmCreateHandle (fuel : ℕ) (shm : Posix.PShm) : ResM (Posix.PShm × Except PError Unit) := do
  access shm.block
  let _ ← check shm.platform_key.isSome
  let some key := shm.platform_key
    | return (shm, .error ⟨.invalidArgument, 0, "Invalid input argument"⟩)
  match ← ppShmOpen fuel shm.block key with
  | (_, .error e) => shmFailed shm e "Failed to call shm_open() to create memory segment"
  | (true, .ok fd) => ppShmAttach pf fuel shm key fd true
  | (false, .ok fd) =>
    access shm.block
    ppShmAttach pf fuel { shm with shm_created := true } key fd false

def pShmFree (shm : Posix.PShm) : ResM Unit := do
  let shm ← ppShmCleanHandle shm
  access shm.block
  if let some key := shm.platform_key then
    pFree key.block
  pFree shm.block

def pShmNew (fuel : ℕ) (name : List UInt8) (size : psize) (perms : PShmAccessPerms) :
    ResM (Except PError Posix.PShm) := do
  let some ret ← pMalloc0
    | return .error ⟨.noResources, 0, "Failed to allocate memory for shared segment"⟩
  let some new_name ← pMalloc0 | do
    pShmFree ⟨ret, false, none, none, 0, none, .readonly⟩
    return .error ⟨.noResources, 0, "Failed to allocate memory for segment name"⟩
  access new_name
  let platform_key ← pIpcGetPlatformKey pf new_name (name ++ shmSuffix)
  access ret
  let shm : Posix.PShm := ⟨ret, false, platform_key, none, size, none, perms⟩
  pFree new_name
  let (shm, r) ← ppShmCreateHandle pf fuel shm
  match r with
  | .error e =>
    pShmFree shm
    return .error e
  | .ok () =>
    access shm.block
    if shm.size > size ∧ size ≠ 0 then
      return .ok { shm with size := size }
    else
      return .ok shm

/-! ## Buffers -/

def pShmBufferNew (fuel : ℕ) (name : List UInt8) (size : psize) :
    ResM (Except PError (ShmBufferHandle (Posix.shmInterface pf fuel))) := do
  match ← pShmNew pf fuel name (shmBufferSegmentSize size) .readwrite with
  | .error e => return .error e
  | .ok shm =>
    access shm.block
    let _ ← check (shmBufferDataOffset + 1 < shm.size)
    if shm.size ≤ shmBufferDataOffset + 1 then
      pShmFree shm
      return .error ⟨.invalidArgument, 0, "Too small memory segment to hold required data"⟩
    let some ret ← pMalloc0 | do
      pShmFree shm
      return .error ⟨.noResources, 0, "Failed to allocate memory for shared buffer"⟩
    access ret
    access shm.block
    return .ok ⟨ret, shm, shm.size - shmBufferDataOffset⟩

end Plibsys.Faults
