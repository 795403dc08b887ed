/-
  Processes that call `p_shm_new` with one name at the same time (POSIX), and then use the lock
  of the segment.

  Each system call is one step.  The memory, the descriptors and the mappings belong to a
  process; the semaphores and the segments are shared.
-/
import Plibsys.Ipc.PosixShmNew
import Plibsys.Lib.Concord
import Plibsys.Lib.Interleaving

namespace Plibsys

/-- The system as another process sees it: `own` is what that process has for itself. -/
def SysState.switch (s own : SysState) : SysState :=
  { s with heap := own.heap, fds := own.fds, maps := own.maps, attached := own.attached }

namespace Posix

open Programs Registries SysState Interleaving

/-! ## The lock of a segment -/

/-- `p_semaphore_acquire`, with a `sem_wait` that is not interrupted: there is no result while it blocks. -/
def pSemaphoreAcquire (sem : PSemaphore) (s : SysState) : Option (Bool × SysState) := do
  let hdl ← sem.sem_hdl
  if s.sems.value hdl = 0 then none else
    return (true, { s with sems := s.sems.set hdl (s.sems.value hdl - 1) })

/-- `p_semaphore_release`. -/
def pSemaphoreRelease (sem : PSemaphore) (s : SysState) : Option (Bool × SysState) := do
  let hdl ← sem.sem_hdl
  return (true, { s with sems := s.sems.set hdl (s.sems.value hdl + 1) })

/-- A handle without a semaphore is refused. -/
def pShmLock (shm : PShm) (s : SysState) : Option (Bool × SysState) :=
  match shm.sem with
  | none => some (false, s)
  | some sem => pSemaphoreAcquire sem s

def pShmUnlock (shm : PShm) (s : SysState) : Option (Bool × SysState) :=
  match shm.sem with
  | none => some (false, s)
  | some sem => pSemaphoreRelease sem s

/-! ## Processes -/

/-- A process that calls `p_shm_new`: its own part of the system, what is left of the call, and
    whether it has the lock. -/
structure Opener where
  own : SysState
  prog : SysM (Except PError PShm)
  locked : Bool

/-- The handle that `p_shm_new` has returned. -/
def Opener.handle (l : Opener) : Option PShm :=
  match l.prog with
  | .ret (.ok shm) => some shm
  | _ => none

/-- One step: the next system call of `p_shm_new`; then `p_shm_lock` and `p_shm_unlock` in turn. -/
def openerStep {ι : Type} (_ : ι) (_ : Unit) (s : SysState) (l : Opener) : Option (SysState × Opener) :=
  match l.prog with
  | .call c k =>
    let (r, s') := sysCall c (s.switch l.own)
    some (s', { l with own := s', prog := k r })
  | .stuck => none
  | .ret (.error _) => none
  | .ret (.ok shm) =>
    if l.locked then (pShmUnlock shm s).map fun r => (r.2, { l with locked := !r.1 })
    else (pShmLock shm s).map fun r => (r.2, { l with locked := r.1 })

variable {ι : Type}

/-- All processes are about to call `p_shm_new`. -/
def openersStart (pf : Platform) (fuel : ℕ) (name : List UInt8) (size : psize) (perms : ι → PShmAccessPerms)
    (s : SysState) (own : ι → SysState) : Config ι SysState Opener where
  shared := s
  loc i := ⟨own i, pShmNew pf fuel name size (perms i), false⟩

/-- The handle is mapped to the segment `n`, and has the semaphore `m`. -/
structure RefersTo (s : SysState) (shm : PShm) (n m : ℕ) : Prop where
  segment : ∃ addr k, shm.addr = some addr ∧ s.maps.get addr = some (n, k)
  semaphore : ∃ sem, shm.sem = some sem ∧ sem.sem_hdl = some m

/-- All handles refer to one segment and to one semaphore, and at most one process has the lock. -/
structure ShareOne (c : Config ι SysState Opener) : Prop where
  handles : ∃ n m, ∀ i shm, (c.loc i).handle = some shm → RefersTo (c.loc i).own shm n m
  lock : ∀ i j, (c.loc i).locked → (c.loc j).locked → i = j

/-- The next call of the process is not `sem_unlink`. -/
def KeepsSem (c : Config ι SysState Opener) (x : ι × Unit) : Prop :=
  match (c.loc x.1).prog with
  | .call (.semUnlink _) _ => False
  | _ => True

end Posix

end Plibsys
