/-
  Shared memory over POSIX (`pshm-posix.c`).
-/
import Plibsys.Ipc.PosixSemaphore

namespace Plibsys.Posix

open Programs Registries

structure PShm where
  /-- the memory of the object -/
  block : ℕ
  shm_created : Bool
  platform_key : Option PString
  addr : Option ℕ
  size : psize
  sem : Option PSemaphore
  perms : PShmAccessPerms
  deriving DecidableEq, Repr

/-- Unmap the segment; failures are only logged. -/
def ppShmUnmap (shm : PShm) : SysM Unit := do
  if let some addr := shm.addr then
    let _ ← sys (.munmap addr shm.size)

/-- The one who created the segment removes its name. -/
def ppShmUnlink (shm : PShm) : SysM Unit := do
  if shm.shm_created then
    if let some key := shm.platform_key then
      let _ ← sys (.shmUnlink key.chars)

/-- Release the semaphore of the segment. -/
def ppShmFreeSem (shm : PShm) : SysM Unit := do
  if let some sem := shm.sem then
    pSemaphoreFree sem

def ppShmCleanHandle (shm : PShm) : SysM PShm := do
  ppShmUnmap shm
  ppShmUnlink shm
  ppShmFreeSem shm
  return { shm with shm_created := false, addr := none, size := 0, sem := none }

/-- A failed call is reported with the last error of the system, and the handle is cleaned. -/
def shmFailed (shm : PShm) (e : Errno) (message : String) : SysM (PShm × Except PError Unit) := do
  let shm ← ppShmCleanHandle shm
  return (shm, .error (lastError e message))

/-- The size of an existing segment is looked up, a new segment gets its size. -/
def ppShmSetSize (shm : PShm) (fd : ℕ) (is_exists : Bool) : SysM (PShm × Except (Errno × String) Unit) := do
  if is_exists then
    match ← sys (.fstat fd) with
    | .error e => return (shm, .error (e, "Failed to call fstat() to get memory segment size"))
    | .ok st_size => return ({ shm with size := st_size }, .ok ())
  else
    match ← sys (.ftruncate fd shm.size) with
    | .error e => return (shm, .error (e, "Failed to call ftruncate() to set memory segment size"))
    | .ok () => return (shm, .ok ())

/-- The segment with a name, and whether it existed before; `fuel` bounds the repetitions of an
    interrupted call. -/
def ppShmOpen (fuel : ℕ) (key : Path) : SysM (Bool × Except Errno ℕ) := do
  let r ← retryEintr (sys (.shmOpenExcl key)) fuel
  match r with
  | .error .EEXIST =>
    let r ← retryEintr (sys (.shmOpen key)) fuel
    return (true, r)
  | r => return (false, r)

/-- The segment is mapped with its size, and gets its semaphore. -/
def ppShmAttach (pf : Platform) (fuel : ℕ) (shm : PShm) (key : PString) (fd : ℕ) (is_exists : Bool) :
    SysM (PShm × Except PError Unit) := do
  let (shm, sized) ← ppShmSetSize shm fd is_exists
  match sized with
  | .error (e, message) =>
    let _ ← sys (.close fd)
    shmFailed shm e message
  | .ok () =>
    match ← sys (.mmap fd shm.size) with
    | .error e =>
      let _ ← sys (.close fd)
      shmFailed { shm with addr := none } e "Failed to call mmap() to map memory segment"
    | .ok addr =>
      let shm := { shm with addr := some addr }
      let _ ← sys (.close fd)
      match ← pSemaphoreNew pf fuel (stringBytes key.chars) 1 (if is_exists then .open else .create) with
      | .error e =>
        let shm ← ppShmCleanHandle shm
        return (shm, .error e)
      | .ok sem => return ({ shm with sem := some sem }, .ok ())

/-- The object after the call, and the error if it failed. -/
def ppShmCreateHandle (pf : Platform) (fuel : ℕ) (shm : PShm) : SysM (PShm × Except PError Unit) := do
  let some key := shm.platform_key
    | return (shm, .error ⟨.invalidArgument, 0, "Invalid input argument"⟩)
  match ← ppShmOpen fuel key.chars with
  | (_, .error e) => shmFailed shm e "Failed to call shm_open() to create memory segment"
  | (true, .ok fd) => ppShmAttach pf fuel shm key fd true
  | (false, .ok fd) => ppShmAttach pf fuel { shm with shm_created := true } key fd false

def pShmFree (shm : PShm) : SysM Unit := do
  let shm ← ppShmCleanHandle shm
  if let some key := shm.platform_key then
    pFree key.block
  pFree shm.block

def pShmNew (pf : Platform) (fuel : ℕ) (name : List UInt8) (size : psize) (perms : PShmAccessPerms) :
    SysM (Except PError PShm) := do
  let some ret ← pMalloc0
    | return .error ⟨.noResources, 0, "Failed to allocate memory for shared segment"⟩
  let some new_name ← pMalloc0 | do
    pShmFree ⟨ret, false, none, none, 0, none, .readonly⟩
    return .error ⟨.noResources, 0, "Failed to allocate memory for segment name"⟩
  let platform_key ← pIpcGetPlatformKey pf (name ++ shmSuffix) true
  let shm : PShm := ⟨ret, false, platform_key, none, size, none, perms⟩
  pFree new_name
  let (shm, r) ← ppShmCreateHandle pf fuel shm
  match r with
  | .error e =>
    pShmFree shm
    return .error e
  | .ok () =>
    if shm.size > size ∧ size ≠ 0 then
      return .ok { shm with size := size }
    else
      return .ok shm

def pShmTakeOwnership (shm : PShm) : PShm :=
  { shm with shm_created := true, sem := shm.sem.map pSemaphoreTakeOwnership }

end Plibsys.Posix
