/-
  The constructors without their accesses and checks are the functions of the other modules.
-/
import Plibsys.Ipc.Constructors

namespace Plibsys.Faults

open Programs

variable {α β : Type}

/-- The program without its accesses and checks. -/
def erase : ResM α → SysM α
  | .ret a => .ret a
  | .stuck => .stuck
  | .call (.sys c) k => .call c fun r => erase (k r)
  | .call (.access _) k => erase (k ())
  | .call (.check ok) k => erase (k ok)
  | .call .mutexNew _ | .call .condNew _ | .call (.mutexFree _) _ | .call (.condFree _) _ => .stuck

theorem erase_bind (p : ResM α) (f : α → ResM β) : erase (p >>= f) = erase p >>= fun a => erase (f a) := by
  change erase (p.bind f) = (erase p).bind fun a => erase (f a)
  induction p with
  | ret a => rfl
  | stuck => rfl
  | call c k ih =>
    cases c with
    | sys c => exact congrArg (Prog.call c) (funext fun r => ih r)
    | access block => exact ih ()
    | check ok => exact ih ok
    | mutexNew => rfl
    | mutexFree i => rfl
    | condNew => rfl
    | condFree i => rfl

theorem erase_bind_of {p : ResM α} {q : SysM α} {f : α → ResM β} {g : α → SysM β} (h : erase p = q)
    (hf : ∀ a, erase (f a) = g a) : erase (p >>= f) = q >>= g := by
  rw [erase_bind, h]
  exact congrArg (q >>= ·) (funext hf)

/-- A system call is made by both. -/
theorem erase_call {c : SysCall} {f : SysReply c → ResM α} {g : SysReply c → SysM α}
    (hf : ∀ r, erase (f r) = g r) :
    erase (sys c >>= f) = Plibsys.sys c >>= g := congrArg (Prog.call c) (funext hf)

theorem erase_retryEintr {call : ResM (Except Errno ℕ)} {call' : SysM (Except Errno ℕ)}
    (h : erase call = call') (n : ℕ) :
    erase (retryEintr call n) = Plibsys.retryEintr call' n := by
  induction n with
  | zero => rfl
  | succ n ih =>
    refine erase_bind_of h fun r => ?_
    rcases r with e | fd
    · cases e <;> first | exact ih | rfl
    · rfl

theorem erase_pIpcGetPlatformKey (pf : Platform) (block : ℕ) (name : List UInt8) :
    erase (pIpcGetPlatformKey pf block name) = Plibsys.pIpcGetPlatformKey pf name true := by
  refine erase_call fun sha1 => ?_
  cases sha1 with
  | none => rfl
  | some sha1 =>
    refine erase_call fun context => ?_
    cases context with
    | none => rfl
    | some context =>
      rcases ipcHashString pf name with _ | _ | hash_str
      · rfl
      · rfl
      · refine erase_call fun hash_block => ?_
        cases hash_block with
        | none => rfl
        | some hash_block =>
          refine erase_call fun _ => erase_call fun _ => erase_call fun path_name => ?_
          cases path_name <;> rfl

theorem erase_ppSemaphoreCleanHandle (sem : Posix.PSemaphore) :
    erase (ppSemaphoreCleanHandle sem) = Posix.ppSemaphoreCleanHandle sem := by
  obtain ⟨block, sem_created, key, hdl, mode, init_val⟩ := sem
  cases hdl <;> cases sem_created <;> cases key <;> rfl

theorem erase_ppSemaphoreCreateHandle (fuel : ℕ) (sem : Posix.PSemaphore) :
    erase (ppSemaphoreCreateHandle fuel sem) = Posix.ppSemaphoreCreateHandle fuel sem := by
  obtain ⟨block, sem_created, key, hdl, mode, init_val⟩ := sem
  cases key with
  | none => rfl
  | some key =>
    have hfail : ∀ e sem_created, erase (do
        let sem ← ppSemaphoreCleanHandle ⟨block, sem_created, some key, none, mode, init_val⟩
        return (sem, .error (lastError e "Failed to call sem_open() to create semaphore")) :
          ResM (Posix.PSemaphore × Except PError Unit)) = (do
        let sem ← Posix.ppSemaphoreCleanHandle ⟨block, sem_created, some key, none, mode, init_val⟩
        return (sem, .error (lastError e "Failed to call sem_open() to create semaphore"))) :=
      fun e sem_created => erase_bind_of (erase_ppSemaphoreCleanHandle _) fun _ => rfl
    refine erase_bind_of
      (p := retryEintr (attempt block key (sys (.semOpenExcl key.chars init_val.toNatClampNeg))) fuel)
      (erase_retryEintr rfl fuel) fun r => ?_
    rcases r with e | hdl
    · cases e with
      | EEXIST =>
        cases mode with
        | «open» =>
          refine erase_bind_of (p := retryEintr (attempt block key (sys (.semOpen key.chars))) fuel)
            (erase_retryEintr rfl fuel) fun r => ?_
          cases r with
          | error e => exact hfail e sem_created
          | ok hdl => rfl
        | create =>
          refine erase_call fun _ =>
            erase_bind_of (p := retryEintr (attempt block key (sys (.semOpen key.chars))) fuel)
            (erase_retryEintr rfl fuel) fun r => ?_
          cases r with
          | error e => exact hfail e sem_created
          | ok hdl => rfl
      | EINTR => exact hfail _ _
      | ENOENT => exact hfail _ _
      | EINVAL => exact hfail _ _
      | EBADF => exact hfail _ _
    · rfl

theorem erase_pSemaphoreFree (sem : Posix.PSemaphore) : erase (pSemaphoreFree sem) = Posix.pSemaphoreFree sem := by
  refine erase_bind_of (erase_ppSemaphoreCleanHandle sem) fun sem => ?_
  obtain ⟨block, sem_created, key, hdl, mode, init_val⟩ := sem
  cases key <;> rfl

theorem erase_pSemaphoreNew (pf : Platform) (fuel : ℕ) (owner : Option ℕ) (name : List UInt8) (init_val : pint)
    (mode : PSemaphoreAccessMode) :
    erase (pSemaphoreNew pf fuel owner name init_val mode) = Posix.pSemaphoreNew pf fuel name init_val mode := by
  have howner : erase (accessName owner) = pure () := by cases owner <;> rfl
  show erase (if init_val < 0 then _ else _) = _
  rw [Posix.pSemaphoreNew]
  split
  · rfl
  · refine erase_call fun ret => ?_
    cases ret with
    | none => rfl
    | some ret =>
      refine erase_bind_of (g := fun _ => _) howner fun _ => erase_call fun new_name => ?_
      cases new_name with
      | none => rfl
      | some new_name =>
        refine erase_bind_of (g := fun _ => _) howner fun _ => ?_
        refine erase_bind_of (p := pIpcGetPlatformKey pf new_name (name ++ semSuffix))
          (erase_pIpcGetPlatformKey ..) fun key => ?_
        refine erase_call fun _ => erase_bind_of (erase_ppSemaphoreCreateHandle fuel _) fun r => ?_
        obtain ⟨sem, e | _⟩ := r
        · exact erase_bind_of (erase_pSemaphoreFree sem) fun _ => rfl
        · rfl

theorem erase_ppShmCleanHandle (shm : Posix.PShm) : erase (ppShmCleanHandle shm) = Posix.ppShmCleanHandle shm := by
  obtain ⟨block, created, key, addr, size, sem, perms⟩ := shm
  refine erase_bind_of (p := ppShmUnmap _) (q := Posix.ppShmUnmap _) ?_ fun _ =>
    erase_bind_of (p := ppShmUnlink _) (q := Posix.ppShmUnlink _) ?_ fun _ =>
      erase_bind_of (p := ppShmFreeSem _) (q := Posix.ppShmFreeSem _) ?_ fun _ => rfl
  · cases addr <;> rfl
  · cases created <;> cases key <;> rfl
  · cases sem with
    | none => rfl
    | some sem => exact erase_pSemaphoreFree sem

theorem erase_shmFailed (shm : Posix.PShm) (e : Errno) (message : String) :
    erase (shmFailed shm e message) = Posix.shmFailed shm e message :=
  erase_bind_of (erase_ppShmCleanHandle shm) fun _ => rfl

theorem erase_ppShmSetSize (shm : Posix.PShm) (fd : ℕ) (is_exists : Bool) :
    erase (ppShmSetSize shm fd is_exists) = Posix.ppShmSetSize shm fd is_exists := by
  cases is_exists with
  | false => exact erase_call fun r => by cases r <;> rfl
  | true => exact erase_call fun r => by cases r <;> rfl

theorem erase_ppShmOpen (fuel block : ℕ) (key : PString) :
    erase (ppShmOpen fuel block key) = Posix.ppShmOpen fuel key.chars := by
  refine erase_bind_of (p := retryEintr (attempt block key (sys (.shmOpenExcl key.chars))) fuel)
    (erase_retryEintr rfl fuel)
    fun r => ?_
  rcases r with e | fd
  · cases e with
    | EEXIST =>
      exact erase_bind_of (p := retryEintr (attempt block key (sys (.shmOpen key.chars))) fuel)
        (erase_retryEintr rfl fuel)
        fun _ => rfl
    | EINTR => rfl
    | ENOENT => rfl
    | EINVAL => rfl
    | EBADF => rfl
  · rfl

variable (pf : Platform) (fuel : ℕ)

theorem erase_ppShmAttach (shm : Posix.PShm) (key : PString) (fd : ℕ) (is_exists : Bool) :
    erase (ppShmAttach pf fuel shm key fd is_exists) = Posix.ppShmAttach pf fuel shm key fd is_exists := by
  refine erase_bind_of (erase_ppShmSetSize shm fd is_exists) ?_
  rintro ⟨shm, ⟨e, message⟩ | _⟩
  · exact erase_call fun _ => erase_shmFailed shm e message
  · refine erase_call fun r => ?_
    rcases r with e | addr
    · exact erase_call fun _ => erase_shmFailed _ e _
    · refine erase_call fun _ => erase_bind_of (erase_pSemaphoreNew pf fuel _ _ _ _) fun r => ?_
      cases r with
      | error e => exact erase_bind_of (erase_ppShmCleanHandle _) fun _ => rfl
      | ok sem => rfl

theorem erase_ppShmCreateHandle (shm : Posix.PShm) :
    erase (ppShmCreateHandle pf fuel shm) = Posix.ppShmCreateHandle pf fuel shm := by
  obtain ⟨block, created, key, addr, size, sem, perms⟩ := shm
  cases key with
  | none => rfl
  | some key =>
    refine erase_bind_of (erase_ppShmOpen fuel block key) ?_
    rintro ⟨is_exists, e | fd⟩
    · exact erase_shmFailed _ e _
    · cases is_exists with
      | true => exact erase_ppShmAttach pf fuel _ key fd true
      | false => exact erase_ppShmAttach pf fuel _ key fd false

theorem erase_pShmFree (shm : Posix.PShm) : erase (pShmFree shm) = Posix.pShmFree shm := by
  refine erase_bind_of (erase_ppShmCleanHandle shm) fun shm => ?_
  obtain ⟨block, created, key, addr, size, sem, perms⟩ := shm
  cases key <;> rfl

/-- The constructor of segments, without its accesses. -/
theorem erase_pShmNew (name : List UInt8) (size : psize) (perms : PShmAccessPerms) :
    erase (pShmNew pf fuel name size perms) = Posix.pShmNew pf fuel name size perms := by
  refine erase_call fun ret => ?_
  cases ret with
  | none => rfl
  | some ret =>
    refine erase_call fun new_name => ?_
    cases new_name with
    | none => exact erase_bind_of (erase_pShmFree _) fun _ => rfl
    | some new_name =>
      refine erase_bind_of (p := pIpcGetPlatformKey pf new_name (name ++ shmSuffix))
        (erase_pIpcGetPlatformKey ..) fun key => ?_
      refine erase_call fun _ => erase_bind_of (erase_ppShmCreateHandle pf fuel _) ?_
      rintro ⟨shm, e | _⟩
      · exact erase_bind_of (erase_pShmFree shm) fun _ => rfl
      · show erase (if _ then _ else _) = _
        dsimp only
        split <;> rfl

/-- The constructor of buffers, without its accesses. -/
theorem erase_pShmBufferNew (name : List UInt8) (size : psize) :
    erase (pShmBufferNew pf fuel name size) = Plibsys.pShmBufferNew (Posix.shmInterface pf fuel) name size := by
  refine erase_bind_of (erase_pShmNew pf fuel _ _ _) fun r => ?_
  cases r with
  | error e => rfl
  | ok shm =>
    show erase (if shm.size ≤ shmBufferDataOffset + 1 then _ else _) =
      if shm.size ≤ shmBufferDataOffset + 1 then _ else _
    split
    · exact erase_bind_of (erase_pShmFree shm) fun _ => rfl
    · refine erase_call fun ret => ?_
      cases ret with
      | none => exact erase_bind_of (erase_pShmFree shm) fun _ => rfl
      | some ret => rfl

end Plibsys.Faults
