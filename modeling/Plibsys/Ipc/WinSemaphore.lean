/-
  Semaphores over the Windows API (`psemaphore-win.c`).
-/
import Plibsys.Ipc.Key
import Plibsys.Lib.CString

namespace Plibsys.Windows

open Programs CStrings

inductive WinErrno where
  | ERROR_ACCESS_DENIED
  | ERROR_INVALID_HANDLE
  | ERROR_NOT_ENOUGH_MEMORY
  | ERROR_INVALID_PARAMETER
  deriving DecidableEq, Repr

def WinErrno.code : WinErrno → pint
  | .ERROR_ACCESS_DENIED => 5
  | .ERROR_INVALID_HANDLE => 6
  | .ERROR_NOT_ENOUGH_MEMORY => 8
  | .ERROR_INVALID_PARAMETER => 87

/-- `p_error_get_ipc_from_system`. -/
def pErrorGetIpcFromSystem : WinErrno → PErrorIPC
  | .ERROR_ACCESS_DENIED => .access
  | .ERROR_NOT_ENOUGH_MEMORY => .noResources
  | .ERROR_INVALID_HANDLE | .ERROR_INVALID_PARAMETER => .invalidArgument

inductive WinCall where
  | malloc
  | free (block : ℕ)
  /-- `CreateSemaphoreA (NULL, value, MAXLONG, key)` -/
  | createSemaphore (value : pint) (key : Path)
  | closeHandle (hdl : ℕ)

/-- What a call returns. -/
def WinReply : WinCall → Type
  | .malloc => Option ℕ
  | .free _ => Unit
  | .createSemaphore _ _ => Except WinErrno ℕ
  | .closeHandle _ => Bool

abbrev WinM := Prog WinCall WinReply

def win (c : WinCall) : WinM (WinReply c) := Prog.perform c

def pMalloc0 : WinM (Option ℕ) := win .malloc

def pFree (block : ℕ) : WinM Unit := win (.free block)

/-- `p_ipc_get_platform_key`: the key is the hash itself. -/
def pIpcGetPlatformKey (pf : Platform) (name : List UInt8) : WinM (Option PString) := do
  let some sha1 ← pMalloc0 | return none
  let some context ← pMalloc0 | do
    pFree sha1
    return none
  let some hash_str ← Prog.ofOption (ipcHashString pf name) | do
    pFree context
    pFree sha1
    return none
  let block ← pMalloc0
  pFree context
  pFree sha1
  let some block := block | return none
  return some ⟨block, hash_str⟩

structure PSemaphore where
  /-- the memory of the object -/
  block : ℕ
  platform_key : Option PString
  /-- `none` is `P_SEM_INVALID_HDL`, which is `NULL` -/
  sem_hdl : Option ℕ
  init_val : pint
  deriving DecidableEq, Repr

/-- The object after the call, and the error if it failed. -/
def ppSemaphoreCreateHandle (sem : PSemaphore) : WinM (PSemaphore × Except PError Unit) := do
  let some key := sem.platform_key
    | return (sem, .error ⟨.invalidArgument, 0, "Invalid input argument"⟩)
  match ← win (.createSemaphore sem.init_val key.chars) with
  | .error e =>
    return ({ sem with sem_hdl := none },
      .error ⟨pErrorGetIpcFromSystem e, e.code, "Failed to call CreateSemaphore() to create semaphore"⟩)
  | .ok hdl => return ({ sem with sem_hdl := some hdl }, .ok ())

def ppSemaphoreCleanHandle (sem : PSemaphore) : WinM PSemaphore := do
  if let some hdl := sem.sem_hdl then
    -- failures are only logged
    let _ ← win (.closeHandle hdl)
  return { sem with sem_hdl := none }

def pSemaphoreFree (sem : PSemaphore) : WinM Unit := do
  let sem ← ppSemaphoreCleanHandle sem
  if let some key := sem.platform_key then
    pFree key.block
  pFree sem.block

/-- The content of `new_name` in `p_semaphore_new`: the suffix is copied over the name. -/
def semaphoreNewName (name : List UInt8) : List UInt8 :=
  let new_name := List.replicate (name.length + semSuffix.length + 1) 0
  string (strcpy (strcpy new_name name) semSuffix)

/-- The access mode is not used. -/
def pSemaphoreNew (pf : Platform) (name : List UInt8) (init_val : pint) (_mode : PSemaphoreAccessMode) :
    WinM (Except PError PSemaphore) := do
  if init_val < 0 then
    return .error ⟨.invalidArgument, 0, "Invalid input argument"⟩
  let some ret ← pMalloc0
    | return .error ⟨.noResources, 0, "Failed to allocate memory for semaphore"⟩
  let some new_name ← pMalloc0 | do
    pFree ret
    return .error ⟨.noResources, 0, "Failed to allocate memory for semaphore"⟩
  let platform_key ← pIpcGetPlatformKey pf (semaphoreNewName name)
  let sem : PSemaphore := ⟨ret, platform_key, none, init_val⟩
  pFree new_name
  let (sem, r) ← ppSemaphoreCreateHandle sem
  match r with
  | .error e =>
    pSemaphoreFree sem
    return .error e
  | .ok () => return .ok sem

end Plibsys.Windows
