/-
  Calls that may fail, and what a program has acquired by them.

  Any system call, allocation or creation of a primitive may be made to fail.  The account says
  which blocks, descriptors, pages and primitives are held; a program reports its accesses to
  memory and its checks, and a call to release something counts whatever it answers.
-/
import Plibsys.Ipc.System
import Plibsys.Lib.Holdings

namespace Plibsys.Faults

open Programs Resources Prog SysState

/-! ## Calls -/

inductive ResCall where
  | sys (c : SysCall)
  /-- an object, or a string, in memory is read or written -/
  | access (block : ℕ)
  /-- a condition without which the function gives up -/
  | check (ok : Bool)
  /-- `p_mutex_new` -/
  | mutexNew
  | mutexFree (mutex : ℕ)
  /-- `p_cond_variable_new` -/
  | condNew
  | condFree (cond : ℕ)

def ResReply : ResCall → Type
  | .sys c => SysReply c
  | .check _ => Bool
  | .mutexNew | .condNew => Option ℕ
  | .access _ | .mutexFree _ | .condFree _ => Unit

/-- A function of the library, between its calls. -/
abbrev ResM := Prog ResCall ResReply

def sys (c : SysCall) : ResM (SysReply c) := perform (ResCall.sys c)

def access (block : ℕ) : ResM Unit := perform (ResCall.access block)

def check (ok : Bool) : ResM Bool := perform (ResCall.check ok)

def mutexNew : ResM (Option ℕ) := perform ResCall.mutexNew

def condNew : ResM (Option ℕ) := perform ResCall.condNew

def pMalloc0 : ResM (Option ℕ) := sys .malloc

def pFree (block : ℕ) : ResM Unit := sys (.free block)

/-- `p_mutex_free`, which does nothing to `NULL`. -/
def pMutexFree : Option ℕ → ResM Unit
  | none => return ()
  | some mutex => perform (ResCall.mutexFree mutex)

/-- `p_cond_variable_free`, which does nothing to `NULL`. -/
def pCondVariableFree : Option ℕ → ResM Unit
  | none => return ()
  | some cond => perform (ResCall.condFree cond)

/-- Repeat a call while it is interrupted. -/
def retryEintr (call : ResM (Except Errno ℕ)) : ℕ → ResM (Except Errno ℕ)
  | 0 => .stuck
  | n + 1 => do
    match ← call with
    | .error .EINTR => retryEintr call n
    | r => return r

/-! ## What the calls acquire and release -/

inductive Resource where
  | block (b : ℕ)
  | fd (d : ℕ)
  | page (addr i : ℕ)
  | sem (hdl : ℕ)
  | mutex (m : ℕ)
  | cond (c : ℕ)
  deriving DecidableEq, Repr

/-- The pages of a mapping. -/
def pageRange (addr : ℕ) (size : psize) : Multiset Resource := (Multiset.range (pages size)).map (.page addr)

def acquired : (c : SysCall) → SysReply c → Multiset Resource
  | .malloc, some b => {.block b}
  | .semOpenExcl _ _, .ok hdl | .semOpen _, .ok hdl => {.sem hdl}
  | .shmOpenExcl _, .ok d | .shmOpen _, .ok d => {.fd d}
  | .mmap _ size, .ok addr => pageRange addr size
  | _, _ => 0

def released : SysCall → Multiset Resource
  | .free b => {.block b}
  | .semClose hdl => {.sem hdl}
  | .close d => {.fd d}
  | .munmap addr size => pageRange addr size
  | _ => 0

def used : SysCall → Multiset Resource
  | .fstat d | .ftruncate d _ | .mmap d _ => {.fd d}
  | _ => 0

/-- A step that is needed has failed.  An interrupted call is repeated; an object that exists is opened
    instead; failures of calls that release something are only logged. -/
def fails : (c : SysCall) → SysReply c → Bool
  | .malloc, none => true
  | .semOpenExcl _ _, .error e | .shmOpenExcl _, .error e => e ≠ .EINTR ∧ e ≠ .EEXIST
  | .semOpen _, .error e | .shmOpen _, .error e => e ≠ .EINTR
  | .fstat _, .error _ | .ftruncate _ _, .error _ | .mmap _ _, .error _ => true
  | _, _ => false

/-- The reply of a call that is made to fail; `p_free` cannot. -/
def failWith : (c : SysCall) → Errno → SysReply c
  | .malloc, _ => none
  | .free _, _ => ()
  | .semOpenExcl _ _, e | .semOpen _, e | .shmOpenExcl _, e | .shmOpen _, e | .mmap _ _, e | .openExcl _,
      e | .ftok _, e
  | .semgetExcl _, e | .semget _, e | .shmgetExcl _ _, e | .shmget _, e | .shmat _, e => .error e
  | .fstat _, e => .error e
  | .shmStat _, e => .error e
  | .semClose _, e | .semUnlink _, e | .ftruncate _ _, e | .munmap _ _, e | .close _, e | .shmUnlink _,
      e | .unlink _, e
  | .semSetVal _ _, e | .semRemove _, e | .shmdt _, e | .shmRemove _, e => .error e

/-! ## The machine -/

structure Machine where
  sys : SysState
  /-- the number of the next mutex or condition variable -/
  nextPrim : ℕ
  /-- which of the next calls are made to fail, and how; later calls are not -/
  faults : List (Option Errno)
  account : Holdings Resource
  /-- a step that was needed has failed -/
  failed : Bool

/-- The next fault, if there is one. -/
def Machine.fault (m : Machine) : Option Errno := m.faults.head?.join

def Machine.answer (m : Machine) (c : SysCall) : SysReply c × SysState :=
  match m.fault with
  | some e => (failWith c e, m.sys)
  | none => sysCall c m.sys

/-- A primitive is created. -/
def Machine.create (m : Machine) (r : ℕ → Resource) : Option ℕ × Machine :=
  match m.fault with
  | some _ => (none, { m with faults := m.faults.tail, failed := true })
  | none => (some m.nextPrim, { m with
      nextPrim := m.nextPrim + 1, faults := m.faults.tail, account := m.account.acquire {r m.nextPrim} })

def resCall : (c : ResCall) → Machine → ResReply c × Machine
  | .sys (.free b), m => ((), { m with
      sys := (sysCall (.free b) m.sys).2, account := m.account.release {.block b} })
  | .sys c, m => ((m.answer c).1, { m with
      sys := (m.answer c).2, faults := m.faults.tail
      account := ((m.account.use (used c)).release (released c)).acquire (acquired c (m.answer c).1)
      failed := m.failed || fails c (m.answer c).1 })
  | .access b, m => ((), { m with account := m.account.use {.block b} })
  | .check ok, m => (ok, { m with failed := m.failed || !ok })
  | .mutexNew, m => m.create .mutex
  | .condNew, m => m.create .cond
  | .mutexFree i, m => ((), { m with account := m.account.release {.mutex i} })
  | .condFree i, m => ((), { m with account := m.account.release {.cond i} })

end Plibsys.Faults
