/-
  Semaphores over System V IPC (`psemaphore-sysv.c`).
-/
import Plibsys.Ipc.Key

namespace Plibsys.Sysv

open Programs Registries

/-- `p_ipc_unix_create_key_file`: whether the file existed before. -/
def pIpcUnixCreateKeyFile (file_name : Path) : SysM (Except Errno Bool) := do
  match ← sys (.openExcl file_name) with
  | .error .EEXIST => return .ok true
  | .error e => return .error e
  | .ok fd =>
    match ← sys (.close fd) with
    | .error e => return .error e
    | .ok () => return .ok false

/-- `p_ipc_unix_get_ftok_key`. -/
def pIpcUnixGetFtokKey (file_name : Path) : SysM (Except Errno ℕ) := sys (.ftok file_name)

structure PSemaphore where
  /-- the memory of the object -/
  block : ℕ
  file_created : Bool
  sem_created : Bool
  unix_key : Option ℕ
  platform_key : Option PString
  sem_hdl : Option ℕ
  mode : PSemaphoreAccessMode
  init_val : pint
  deriving DecidableEq, Repr

def ppSemaphoreCleanHandle (sem : PSemaphore) : SysM PSemaphore := do
  -- failures are only logged
  if let some hdl := sem.sem_hdl then
    if sem.sem_created then
      let _ ← sys (.semRemove hdl)
  if sem.file_created then
    if let some key := sem.platform_key then
      let _ ← sys (.unlink key.chars)
  return { sem with file_created := false, sem_created := false, unix_key := none, sem_hdl := none }

/-- A failed call is reported with the last error of the system, and the handle is cleaned. -/
def semaphoreFailed (sem : PSemaphore) (e : Errno) (message : String) :
    SysM (PSemaphore × Except PError Unit) := do
  let sem ← ppSemaphoreCleanHandle sem
  return (sem, .error (lastError e message))

/-- The semaphore with a key, and whether it existed before. -/
def ppSemaphoreGet (unix_key : ℕ) : SysM (Bool × Except Errno ℕ) := do
  let r : Except Errno ℕ ← sys (.semgetExcl unix_key)
  match r with
  | .error .EEXIST =>
    let r ← sys (.semget unix_key)
    return (true, r)
  | r => return (false, r)

/-- The value of a new semaphore, and of every semaphore with `P_SEM_ACCESS_CREATE`. -/
def ppSemaphoreSetValue (sem : PSemaphore) (hdl : ℕ) : SysM (PSemaphore × Except PError Unit) := do
  if sem.sem_created ∨ sem.mode = .create then
    match ← sys (.semSetVal hdl sem.init_val.toNatClampNeg) with
    | .error e => semaphoreFailed sem e "Failed to set semaphore initial value with semctl()"
    | .ok () => return (sem, .ok ())
  else
    return (sem, .ok ())

/-- The object after the call, and the error if it failed. -/
def ppSemaphoreCreateHandle (sem : PSemaphore) : SysM (PSemaphore × Except PError Unit) := do
  let some key := sem.platform_key
    | return (sem, .error ⟨.invalidArgument, 0, "Invalid input argument"⟩)
  match ← pIpcUnixCreateKeyFile key.chars with
  | .error e => semaphoreFailed sem e "Failed to create key file"
  | .ok built =>
    let sem := { sem with file_created := if built then sem.file_created else true }
    match ← pIpcUnixGetFtokKey key.chars with
    | .error e => semaphoreFailed { sem with unix_key := none } e "Failed to get unique IPC key"
    | .ok unix_key =>
      let sem := { sem with unix_key := some unix_key }
      match ← ppSemaphoreGet unix_key with
      | (_, .error e) =>
        semaphoreFailed { sem with sem_hdl := none } e "Failed to call semget() to create semaphore"
      | (true, .ok hdl) => ppSemaphoreSetValue { sem with sem_hdl := some hdl } hdl
      | (false, .ok hdl) =>
        -- maybe the key file was left after a crash, so take it
        ppSemaphoreSetValue { sem with sem_hdl := some hdl, sem_created := true, file_created := built } hdl

def pSemaphoreFree (sem : PSemaphore) : SysM Unit := do
  let sem ← ppSemaphoreCleanHandle sem
  if let some key := sem.platform_key then
    pFree key.block
  pFree sem.block

def pSemaphoreNew (pf : Platform) (name : List UInt8) (init_val : pint) (mode : PSemaphoreAccessMode) :
    SysM (Except PError PSemaphore) := do
  if init_val < 0 then
    return .error ⟨.invalidArgument, 0, "Invalid input argument"⟩
  let some ret ← pMalloc0
    | return .error ⟨.noResources, 0, "Failed to allocate memory for semaphore"⟩
  let some new_name ← pMalloc0 | do
    pFree ret
    return .error ⟨.noResources, 0, "Failed to allocate memory for semaphore"⟩
  let platform_key ← pIpcGetPlatformKey pf (name ++ semSuffix) false
  -- the zeroed handle is the number 0, which no call looks at before `semget`
  let sem : PSemaphore := ⟨ret, false, false, none, platform_key, none, mode, init_val⟩
  pFree new_name
  let (sem, r) ← ppSemaphoreCreateHandle sem
  match r with
  | .error e =>
    pSemaphoreFree sem
    return .error e
  | .ok () => return .ok sem

def pSemaphoreTakeOwnership (sem : PSemaphore) : PSemaphore := { sem with sem_created := true }

end Plibsys.Sysv
