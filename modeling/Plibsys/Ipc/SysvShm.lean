/-
  Shared memory over System V IPC (`pshm-sysv.c`).
-/
import Plibsys.Ipc.SysvSemaphore

namespace Plibsys.Sysv

open Programs Registries

structure PShm where
  /-- the memory of the object -/
  block : ℕ
  file_created : Bool
  unix_key : Option ℕ
  platform_key : Option PString
  shm_hdl : Option ℕ
  addr : Option ℕ
  size : psize
  sem : Option PSemaphore
  perms : PShmAccessPerms
  deriving DecidableEq, Repr

/-- Detach the segment; the last one to do it removes the segment. -/
def ppShmDetach (addr hdl : ℕ) : SysM Unit := do
  -- failures are only logged
  let _ ← sys (.shmdt addr)
  if let .ok (_, nattch) ← sys (.shmStat hdl) then
    if nattch = 0 then
      let _ ← sys (.shmRemove hdl)

/-- Detach the segment, if it is attached. -/
def ppShmUnmap (shm : PShm) : SysM Unit := do
  if let (some addr, some hdl) := (shm.addr, shm.shm_hdl) then
    ppShmDetach addr hdl

/-- The one who created the key file removes it. -/
def ppShmUnlink (shm : PShm) : SysM Unit := do
  if shm.file_created then
    if let some key := shm.platform_key then
      let _ ← sys (.unlink key.chars)

/-- Release the semaphore of the segment. -/
def ppShmFreeSem (shm : PShm) : SysM Unit := do
  if let some sem := shm.sem then
    pSemaphoreFree sem

def ppShmCleanHandle (shm : PShm) : SysM PShm := do
  ppShmUnmap shm
  ppShmUnlink shm
  ppShmFreeSem shm
  return { shm with
    file_created := false, unix_key := none, shm_hdl := none, addr := none, size := 0, sem := none }

/-- A failed call is reported with the last error of the system, and the handle is cleaned. -/
def shmFailed (shm : PShm) (e : Errno) (message : String) : SysM (PShm × Except PError Unit) := do
  let shm ← ppShmCleanHandle shm
  return (shm, .error (lastError e message))

/-- The segment with a key, and whether it existed before. -/
def ppShmGet (unix_key : ℕ) (size : psize) : SysM (Bool × Except Errno ℕ) := do
  let r : Except Errno ℕ ← sys (.shmgetExcl unix_key size)
  match r with
  | .error .EEXIST =>
    let r ← sys (.shmget unix_key)
    return (true, r)
  | r => return (false, r)

/-- `(void *) -1`, which `shmat ()` returns when it fails. -/
def notAttached : ℕ := 2 ^ 64 - 1

/-- The segment is attached with the size that it has, and gets its semaphore. -/
def ppShmAttach (pf : Platform) (shm : PShm) (key : PString) (hdl : ℕ) (is_exists : Bool) :
    SysM (PShm × Except PError Unit) := do
  match ← sys (.shmStat hdl) with
  | .error e => shmFailed shm e "Failed to call shmctl() to get memory segment size"
  | .ok (shm_segsz, _) =>
    let shm := { shm with size := shm_segsz }
    match ← sys (.shmat hdl) with
    -- the clean-up takes this address for that of a segment
    | .error e =>
      shmFailed { shm with addr := some notAttached } e "Failed to call shmat() to attach to the memory segment"
    | .ok addr =>
      let shm := { shm with addr := some addr }
      match ← pSemaphoreNew pf (stringBytes key.chars) 1 (if is_exists then .open else .create) with
      | .error e =>
        let shm ← ppShmCleanHandle shm
        return (shm, .error e)
      | .ok sem => return ({ shm with sem := some sem }, .ok ())

/-- The object after the call, and the error if it failed. -/
def ppShmCreateHandle (pf : Platform) (shm : PShm) : SysM (PShm × Except PError Unit) := do
  let some key := shm.platform_key
    | return (shm, .error ⟨.invalidArgument, 0, "Invalid input argument"⟩)
  match ← pIpcUnixCreateKeyFile key.chars with
  | .error e => shmFailed shm e "Failed to create key file"
  | .ok built =>
    let shm := { shm with file_created := if built then shm.file_created else true }
    match ← pIpcUnixGetFtokKey key.chars with
    | .error e => shmFailed { shm with unix_key := none } e "Failed to get unique IPC key"
    | .ok unix_key =>
      let shm := { shm with unix_key := some unix_key }
      match ← ppShmGet unix_key shm.size with
      | (_, .error e) => shmFailed { shm with shm_hdl := none } e "Failed to call shmget() to create memory segment"
      | (true, .ok hdl) => ppShmAttach pf { shm with shm_hdl := some hdl } key hdl true
      | (false, .ok hdl) => ppShmAttach pf { shm with shm_hdl := some hdl, file_created := built } key hdl false

def pShmFree (shm : PShm) : SysM Unit := do
  let shm ← ppShmCleanHandle shm
  if let some key := shm.platform_key then
    pFree key.block
  pFree shm.block

def pShmNew (pf : Platform) (name : List UInt8) (size : psize) (perms : PShmAccessPerms) :
    SysM (Except PError PShm) := do
  let some ret ← pMalloc0
    | return .error ⟨.noResources, 0, "Failed to allocate memory for shared segment"⟩
  let some new_name ← pMalloc0 | do
    pShmFree ⟨ret, false, none, none, none, none, 0, none, .readonly⟩
    return .error ⟨.noResources, 0, "Failed to allocate memory for segment name"⟩
  let platform_key ← pIpcGetPlatformKey pf (name ++ shmSuffix) false
  let shm : PShm := ⟨ret, false, none, platform_key, none, none, size, none, perms⟩
  pFree new_name
  let (shm, r) ← ppShmCreateHandle pf shm
  match r with
  | .error e =>
    pShmFree shm
    return .error e
  | .ok () =>
    if shm.size > size ∧ size ≠ 0 then
      return .ok { shm with size := size }
    else
      return .ok shm

def pShmTakeOwnership (shm : PShm) : PShm :=
  { shm with file_created := true, sem := shm.sem.map pSemaphoreTakeOwnership }

end Plibsys.Sysv
