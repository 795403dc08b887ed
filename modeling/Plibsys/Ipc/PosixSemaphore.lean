/-
  Semaphores over POSIX (`psemaphore-posix.c`).
-/
import Plibsys.Ipc.Key

namespace Plibsys.Posix

open Programs Registries

structure PSemaphore where
  /-- the memory of the object -/
  block : ℕ
  sem_created : Bool
  platform_key : Option PString
  /-- `none` is `P_SEM_INVALID_HDL`, which is `NULL` -/
  sem_hdl : Option ℕ
  mode : PSemaphoreAccessMode
  init_val : pint
  deriving DecidableEq, Repr

def ppSemaphoreCleanHandle (sem : PSemaphore) : SysM PSemaphore := do
  if let some hdl := sem.sem_hdl then
    -- failures are only logged
    let _ ← sys (.semClose hdl)
    if sem.sem_created then
      if let some key := sem.platform_key then
        let _ ← sys (.semUnlink key.chars)
  return { sem with sem_created := false, sem_hdl := none }

/-- The object after the call, and the error if it failed; `fuel` bounds the repetitions of an
    interrupted call. -/
def ppSemaphoreCreateHandle (fuel : ℕ) (sem : PSemaphore) : SysM (PSemaphore × Except PError Unit) := do
  let some key := sem.platform_key
    | return (sem, .error ⟨.invalidArgument, 0, "Invalid input argument"⟩)
  let r ← retryEintr (sys (.semOpenExcl key.chars sem.init_val.toNatClampNeg)) fuel
  let (sem_created, r) ←
    match r with
    | .error .EEXIST => do
      if sem.mode = .create then
        let _ ← sys (.semUnlink key.chars)
      let r ← retryEintr (sys (.semOpen key.chars)) fuel
      pure (sem.sem_created, r)
    | .error e => pure (sem.sem_created, .error e)
    | .ok hdl => pure (true, .ok hdl)
  match r with
  | .ok hdl => return ({ sem with sem_created := sem_created, sem_hdl := some hdl }, .ok ())
  | .error e =>
    let sem ← ppSemaphoreCleanHandle { sem with sem_created := sem_created, sem_hdl := none }
    return (sem, .error (lastError e "Failed to call sem_open() to create semaphore"))

def pSemaphoreFree (sem : PSemaphore) : SysM Unit := do
  let sem ← ppSemaphoreCleanHandle sem
  if let some key := sem.platform_key then
    pFree key.block
  pFree sem.block

def pSemaphoreNew (pf : Platform) (fuel : ℕ) (name : List UInt8) (init_val : pint) (mode : PSemaphoreAccessMode) :
    SysM (Except PError PSemaphore) := do
  if init_val < 0 then
    return .error ⟨.invalidArgument, 0, "Invalid input argument"⟩
  let some ret ← pMalloc0
    | return .error ⟨.noResources, 0, "Failed to allocate memory for semaphore"⟩
  let some new_name ← pMalloc0 | do
    pFree ret
    return .error ⟨.noResources, 0, "Failed to allocate memory for semaphore"⟩
  let platform_key ← pIpcGetPlatformKey pf (name ++ semSuffix) true
  let sem : PSemaphore := ⟨ret, false, platform_key, none, mode, init_val⟩
  pFree new_name
  let (sem, r) ← ppSemaphoreCreateHandle fuel sem
  match r with
  | .error e =>
    pSemaphoreFree sem
    return .error e
  | .ok () => return .ok sem

def pSemaphoreTakeOwnership (sem : PSemaphore) : PSemaphore := { sem with sem_created := true }

end Plibsys.Posix
