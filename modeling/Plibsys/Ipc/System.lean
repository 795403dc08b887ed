/-
  The operating system, as the inter-process communication of the library uses it: memory of
  the process, files, and the semaphores and memory segments of POSIX and of System V.

  The calls behave as their standards specify and have the resources that they need; the calls
  that open a named object may be interrupted.
-/
import Mathlib.Tactic.SplitIfs
import Plibsys.Lib.Prog
import Plibsys.Lib.Registry
import Plibsys.Types

namespace Plibsys

open Programs Registries

/-! ## Errors -/

inductive Errno where
  | EINTR
  | EEXIST
  | ENOENT
  | EINVAL
  | EBADF
  deriving DecidableEq, Repr

/-- The error numbers of Linux. -/
def Errno.code : Errno → pint
  | .EINTR => 4
  | .EEXIST => 17
  | .ENOENT => 2
  | .EINVAL => 22
  | .EBADF => 9

/-- `p_error_get_ipc_from_system`. -/
def pErrorGetIpcFromSystem : Errno → PErrorIPC
  | .EEXIST => .exists
  | .EINVAL => .invalidArgument
  | .ENOENT => .notExists
  | .EINTR | .EBADF => .failed

/-- `p_error_set_error_p` with the last error of the system. -/
def lastError (e : Errno) (message : String) : PError := ⟨pErrorGetIpcFromSystem e, e.code, message⟩

/-! ## Calls -/

/-- The names of objects and files. -/
abbrev Path := List Char

inductive SysCall where
  | malloc
  | free (block : ℕ)
  /-- `sem_open (key, O_CREAT | O_EXCL, 0660, value)` -/
  | semOpenExcl (key : Path) (value : ℕ)
  /-- `sem_open (key, 0, 0, 0)` -/
  | semOpen (key : Path)
  | semClose (sem : ℕ)
  | semUnlink (key : Path)
  /-- `shm_open (key, O_CREAT | O_EXCL | O_RDWR, 0660)` -/
  | shmOpenExcl (key : Path)
  /-- `shm_open (key, O_RDWR, 0660)` -/
  | shmOpen (key : Path)
  | fstat (fd : ℕ)
  | ftruncate (fd : ℕ) (size : psize)
  | mmap (fd : ℕ) (size : psize)
  | munmap (addr : ℕ) (size : psize)
  | close (fd : ℕ)
  | shmUnlink (key : Path)
  /-- `open (path, O_CREAT | O_EXCL | O_RDONLY, 0640)` -/
  | openExcl (path : Path)
  /-- `stat (path)` and `ftok (path, 'P')` -/
  | ftok (path : Path)
  | unlink (path : Path)
  /-- `semget (key, 1, IPC_CREAT | IPC_EXCL | 0660)` -/
  | semgetExcl (key : ℕ)
  /-- `semget (key, 1, 0660)` -/
  | semget (key : ℕ)
  /-- `semctl (id, 0, SETVAL, value)` -/
  | semSetVal (id : ℕ) (value : ℕ)
  /-- `semctl (id, 0, IPC_RMID)` -/
  | semRemove (id : ℕ)
  /-- `shmget (key, size, IPC_CREAT | IPC_EXCL | flags)` -/
  | shmgetExcl (key : ℕ) (size : psize)
  /-- `shmget (key, 0, flags)` -/
  | shmget (key : ℕ)
  /-- `shmctl (id, IPC_STAT)`: `shm_segsz` and `shm_nattch` -/
  | shmStat (id : ℕ)
  | shmat (id : ℕ)
  | shmdt (addr : ℕ)
  /-- `shmctl (id, IPC_RMID)` -/
  | shmRemove (id : ℕ)

/-- What a call returns. -/
def SysReply : SysCall → Type
  | .malloc => Option ℕ
  | .free _ => Unit
  | .semOpenExcl _ _ | .semOpen _ | .shmOpenExcl _ | .shmOpen _ | .mmap _ _ | .openExcl _ | .ftok _ |
    .semgetExcl _ | .semget _ | .shmgetExcl _ _ | .shmget _ | .shmat _ => Except Errno ℕ
  | .fstat _ => Except Errno psize
  | .shmStat _ => Except Errno (psize × ℕ)
  | .semClose _ | .semUnlink _ | .ftruncate _ _ | .munmap _ _ | .close _ | .shmUnlink _ |
    .unlink _ | .semSetVal _ _ | .semRemove _ | .shmdt _ | .shmRemove _ => Except Errno Unit

/-- A function of the library, between its system calls. -/
abbrev SysM := Prog SysCall SysReply

/-! ## The state of the system -/

structure SysState where
  /-- blocks of allocated memory -/
  heap : Table Unit
  /-- POSIX semaphores and their values -/
  sems : Registry Path ℕ
  /-- POSIX memory objects and their sizes -/
  shms : Registry Path psize
  /-- file descriptors of memory objects, or of files -/
  fds : Table (Option ℕ)
  /-- mapped memory objects, with the number of their mapped pages -/
  maps : Table (ℕ × ℕ)
  /-- files; the number of a file is its System V key -/
  files : Registry Path Unit
  /-- System V semaphores, by key -/
  semIds : Registry ℕ ℕ
  /-- System V segments, by key: their sizes -/
  shmIds : Registry ℕ psize
  /-- attached System V segments -/
  attached : Table ℕ
  /-- the number of attachments of each System V segment -/
  nattch : ℕ → ℕ
  /-- which of the next calls that open a named object are interrupted -/
  interrupts : List Bool

namespace SysState

/-- A system without objects. -/
def empty : SysState where
  heap := .empty
  sems := .empty
  shms := .empty
  fds := .empty
  maps := .empty
  files := .empty
  semIds := .empty
  shmIds := .empty
  attached := .empty
  nattch _ := 0
  interrupts := []

/-- A call that may be interrupted. -/
def interruptible (s : SysState) (call : SysState → Except Errno ℕ × SysState) : Except Errno ℕ × SysState :=
  match s.interrupts with
  | true :: rest => (.error .EINTR, { s with interrupts := rest })
  | false :: rest => call { s with interrupts := rest }
  | [] => call s

/-- Open an existing object. -/
def lookup {V N : Type} (r : Registry N V) (n : N) : Except Errno ℕ :=
  match r.names n with
  | some i => .ok i
  | none => .error .ENOENT

/-- The value of the semaphore with a name. -/
def semValue (s : SysState) (key : Path) : Option ℕ := (s.sems.names key).map s.sems.value

/-- A new file descriptor. -/
def openFd (s : SysState) (target : Option ℕ) : ℕ × SysState :=
  (s.fds.next, { s with fds := s.fds.alloc target })

/-- The number of pages of 4096 bytes. -/
def pages (size : psize) : ℕ := (size.toNat + 4095) / 4096

/-- The key of a System V object is removed with the object. -/
def removeId {V : Type} (r : Registry ℕ V) (i : ℕ) : Registry ℕ V where
  names key := if r.names key = some i then none else r.names key
  value := r.value
  next := r.next
  fresh key j h := by
    split_ifs at h with hi
    exact r.fresh key j h

end SysState

open SysState

/-- The system. -/
def sysCall : (c : SysCall) → SysState → SysReply c × SysState
  | .malloc, s => (some s.heap.next, { s with heap := s.heap.alloc () })
  | .free block, s => ((), { s with heap := s.heap.free block })
  | .semOpenExcl key value, s => s.interruptible fun s =>
    match s.sems.names key with
    | some _ => (.error .EEXIST, s)
    | none => (.ok s.sems.next, { s with sems := s.sems.create key value })
  | .semOpen key, s => s.interruptible fun s => (lookup s.sems key, s)
  | .semClose _, s => (.ok (), s)
  | .semUnlink key, s =>
    match s.sems.names key with
    | some _ => (.ok (), { s with sems := s.sems.remove key })
    | none => (.error .ENOENT, s)
  | .shmOpenExcl key, s => s.interruptible fun s =>
    match s.shms.names key with
    | some _ => (.error .EEXIST, s)
    | none =>
      let (fd, s) := { s with shms := s.shms.create key 0 }.openFd (some s.shms.next)
      (.ok fd, s)
  | .shmOpen key, s => s.interruptible fun s =>
    match s.shms.names key with
    | some i =>
      let (fd, s) := s.openFd (some i)
      (.ok fd, s)
    | none => (.error .ENOENT, s)
  | .fstat fd, s =>
    match s.fds.get fd with
    | some (some i) => (.ok (s.shms.value i), s)
    | _ => (.error .EBADF, s)
  | .ftruncate fd size, s =>
    match s.fds.get fd with
    | some (some i) =>
      -- the size is an `off_t`
      if size.toNat < 2 ^ 63 then (.ok (), { s with shms := s.shms.set i size }) else (.error .EINVAL, s)
    | _ => (.error .EBADF, s)
  | .mmap fd size, s =>
    match s.fds.get fd with
    | some (some i) =>
      if size = 0 then (.error .EINVAL, s)
      else (.ok s.maps.next, { s with maps := s.maps.alloc (i, pages size) })
    | _ => (.error .EBADF, s)
  | .munmap addr size, s =>
    match s.maps.get addr with
    | some (i, n) =>
      if size = 0 then (.error .EINVAL, s)
      -- the pages that are not unmapped stay mapped
      else if pages size < n then (.ok (), { s with maps := s.maps.set addr (i, n - pages size) })
      else (.ok (), { s with maps := s.maps.free addr })
    | none => (.error .EINVAL, s)
  | .close fd, s =>
    match s.fds.get fd with
    | some _ => (.ok (), { s with fds := s.fds.free fd })
    | none => (.error .EBADF, s)
  | .shmUnlink key, s =>
    match s.shms.names key with
    | some _ => (.ok (), { s with shms := s.shms.remove key })
    | none => (.error .ENOENT, s)
  | .openExcl path, s =>
    match s.files.names path with
    | some _ => (.error .EEXIST, s)
    | none =>
      let (fd, s) := { s with files := s.files.create path () }.openFd none
      (.ok fd, s)
  | .ftok path, s => (lookup s.files path, s)
  | .unlink path, s =>
    match s.files.names path with
    | some _ => (.ok (), { s with files := s.files.remove path })
    | none => (.error .ENOENT, s)
  | .semgetExcl key, s =>
    match s.semIds.names key with
    | some _ => (.error .EEXIST, s)
    | none => (.ok s.semIds.next, { s with semIds := s.semIds.create key 0 })
  | .semget key, s => (lookup s.semIds key, s)
  | .semSetVal id value, s => (.ok (), { s with semIds := s.semIds.set id value })
  | .semRemove id, s => (.ok (), { s with semIds := removeId s.semIds id })
  | .shmgetExcl key size, s =>
    match s.shmIds.names key with
    | some _ => (.error .EEXIST, s)
    | none =>
      -- a segment has at least one byte
      if size = 0 then (.error .EINVAL, s) else (.ok s.shmIds.next, { s with
        shmIds := s.shmIds.create key size
        nattch := Function.update s.nattch s.shmIds.next 0 })
  | .shmget key, s => (lookup s.shmIds key, s)
  | .shmStat id, s => (.ok (s.shmIds.value id, s.nattch id), s)
  | .shmat id, s => (.ok s.attached.next, { s with
      attached := s.attached.alloc id
      nattch := Function.update s.nattch id (s.nattch id + 1) })
  | .shmdt addr, s =>
    match s.attached.get addr with
    | some id => (.ok (), { s with
        attached := s.attached.free addr
        nattch := Function.update s.nattch id (s.nattch id - 1) })
    | none => (.error .EINVAL, s)
  | .shmRemove id, s => (.ok (), { s with shmIds := removeId s.shmIds id })

/-! ## Calls as programs -/

def sys (c : SysCall) : SysM (SysReply c) := Prog.perform c

def pMalloc0 : SysM (Option ℕ) := sys .malloc

def pFree (block : ℕ) : SysM Unit := sys (.free block)

/-- Repeat a call while it is interrupted. -/
def retryEintr (call : SysM (Except Errno ℕ)) : ℕ → SysM (Except Errno ℕ)
  | 0 => .stuck
  | n + 1 => do
    match ← call with
    | .error .EINTR => retryEintr call n
    | r => return r

theorem exec_pMalloc0 (s : SysState) :
    pMalloc0.exec sysCall s = some (some s.heap.next, { s with heap := s.heap.alloc () }) := rfl

theorem exec_pFree (block : ℕ) (s : SysState) :
    (pFree block).exec sysCall s = some ((), { s with heap := s.heap.free block }) := rfl

/-! ## Interrupted calls -/

variable {s : SysState} {fuel : ℕ} {call : SysM (Except Errno ℕ)} {f : SysState → Except Errno ℕ × SysState}

/-- The repetition of an interrupted call ends with the call itself. -/
theorem exec_retryEintr (hcall : ∀ s, call.exec sysCall s = some (s.interruptible f))
    (hopen : ∀ rest, (f { s with interrupts := rest }).1 ≠ .error .EINTR) (hfuel : s.interrupts.length < fuel) :
    ∃ rest, rest.length ≤ s.interrupts.length ∧
      (retryEintr call fuel).exec sysCall s = some (f { s with interrupts := rest }) := by
  induction fuel generalizing s with
  | zero => exact absurd hfuel (Nat.not_lt_zero _)
  | succ fuel ih =>
    have hdone : ∀ rest, (match (f { s with interrupts := rest }).1 with
        | .error .EINTR => retryEintr call fuel
        | r => pure r).exec sysCall (f { s with interrupts := rest }).2 =
          some (f { s with interrupts := rest }) := by
      intro rest
      have hne := hopen rest
      split
      · rename_i heq
        exact absurd heq hne
      · rfl
    rw [retryEintr, Prog.exec_bind, hcall]
    rcases hints : s.interrupts with _ | ⟨b, rest⟩
    · refine ⟨[], Nat.le_refl _, ?_⟩
      have hsame : s = { s with interrupts := [] } := by rw [← hints]
      rw [interruptible, hints]
      have := hdone []
      rw [← hsame] at this ⊢
      exact this
    · rw [interruptible, hints]
      cases b with
      | false => exact ⟨rest, Nat.le_succ _, hdone rest⟩
      | true =>
        rw [hints] at hfuel
        obtain ⟨rest', hle, hexec⟩ := ih (s := { s with interrupts := rest }) hopen (Nat.lt_of_succ_lt_succ hfuel)
        exact ⟨rest', Nat.le_succ_of_le hle, hexec⟩

end Plibsys
