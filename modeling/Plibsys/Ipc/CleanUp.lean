/-
  What the constructors hold when they return.

  The parts of an object are read off the object.  A constructor that fails leaves what was held
  before it; a function that releases an object leaves what was held besides the parts.
-/
import Mathlib.Data.Multiset.OrderedMonoid
import Plibsys.Ipc.Erasure
import Plibsys.Ipc.FaultRules

namespace Plibsys.Faults

open Programs Resources Prog SysState Registries

/-! ## Parts -/

/-- A part that an object may have. -/
def part {β : Type} (r : β → Resource) : Option β → Multiset Resource
  | none => 0
  | some i => {r i}

def lockParts (lock : PRWLock) : Multiset Resource :=
  {.block lock.block} + part .mutex lock.mutex + part .cond lock.read_cv + part .cond lock.write_cv

def keyParts (key : Option PString) : Multiset Resource := part (fun key => .block key.block) key

def semParts (sem : Posix.PSemaphore) : Multiset Resource :=
  {.block sem.block} + keyParts sem.platform_key + part .sem sem.sem_hdl

def optSemParts : Option Posix.PSemaphore → Multiset Resource
  | none => 0
  | some sem => semParts sem

/-- The mapping of a segment, as its handle describes it. -/
def mapParts (shm : Posix.PShm) : Multiset Resource :=
  match shm.addr with
  | none => 0
  | some addr => pageRange addr shm.size

def shmParts (shm : Posix.PShm) : Multiset Resource :=
  {.block shm.block} + keyParts shm.platform_key + mapParts shm + optSemParts shm.sem

variable {fuel : ℕ} {I : SysState → Prop} {X Y Z : Multiset Resource} {fl : Bool} {m : Machine}

/-! ## Keys -/

theorem ends_pIpcGetPlatformKey (pf : Platform) {block : ℕ} {name : List UInt8} (hname : name ≠ [])
    (hI : AboutSegments I) (h : At fuel I X fl m) (hblock : Resource.block block ∈ X) :
    Ends resCall (pIpcGetPlatformKey pf block name) m fun key m' =>
      (∀ k ∈ key, k.chars = platformKey pf name true) ∧ At fuel I (keyParts key + X) (fl || key.isNone) m' := by
  have hnone : ∀ {m}, At fuel I X true m → Ends resCall (pure none : ResM (Option PString)) m fun key m' =>
      (∀ k ∈ key, k.chars = platformKey pf name true) ∧ At fuel I (keyParts key + X) (fl || key.isNone) m' := by
    intro m h
    refine Ends.pure ⟨nofun, ?_⟩
    rw [Option.isNone_none, Bool.or_true, keyParts, part, zero_add]
    exact h
  rw [pIpcGetPlatformKey, ipcHashString_eq pf hname]
  refine ends_pMalloc0 hI h (fun _ h => hnone h) fun sha1 _ h => ?_
  refine ends_access h (by simp) fun _ h => ?_
  refine ends_pMalloc0 hI h (fun _ h => ?_) fun context _ h => ?_
  · exact ends_pFree hI h rfl fun _ h => hnone h
  refine ends_access h (by simp) fun _ h => ends_access h (by simp [hblock]) fun _ h =>
    ends_access h (by simp) fun _ h => ?_
  refine ends_pMalloc0 hI h (fun _ h => ?_) fun hash_block _ h => ?_
  · refine ends_access h (by simp) fun _ h => ends_pFree hI h rfl fun _ h => ends_pFree hI h rfl fun _ h => ?_
    exact hnone h
  refine ends_access h (by simp) fun _ h => ends_access h (by simp) fun _ h => ?_
  refine ends_pFree hI (Y := {.block hash_block} + ({.block sha1} + X)) h (by abel) fun _ h => ?_
  refine ends_pFree hI (Y := {.block hash_block} + X) h (by abel) fun _ h => ?_
  refine ends_access h (by simp) fun _ h => ?_
  refine ends_pMalloc0 hI h (fun _ h => ?_) fun path_name _ h => ?_
  · exact ends_pFree hI h rfl fun _ h => hnone h
  refine ends_access h (by simp) fun _ h => ends_access h (by simp) fun _ h => ?_
  refine ends_pFree hI (Y := {.block path_name} + X) h (by abel) fun _ h => Ends.pure ⟨?_, ?_⟩
  · intro k hk
    cases hk
    rfl
  · exact (Bool.or_false fl).symm ▸ h

/-! ## Semaphores -/

theorem block_mem_semParts (sem : Posix.PSemaphore) : Resource.block sem.block ∈ semParts sem := by
  rw [semParts]
  simp

theorem key_mem_semParts {sem : Posix.PSemaphore} {key : PString} (hkey : sem.platform_key = some key) :
    Resource.block key.block ∈ semParts sem := by
  rw [semParts, hkey, keyParts, part]
  simp

theorem ends_ppSemaphoreCleanHandle (sem : Posix.PSemaphore) (h : Held fuel (semParts sem + Z) fl m) :
    Ends resCall (ppSemaphoreCleanHandle sem) m fun sem' m' =>
      sem' = { sem with sem_created := false, sem_hdl := none } ∧ Held fuel (semParts sem' + Z) fl m' := by
  obtain ⟨block, created, key, hdl, mode, v⟩ := sem
  have hblock : Resource.block block ∈ semParts ⟨block, created, key, none, mode, v⟩ + Z :=
    Multiset.mem_add.2 (.inl (block_mem_semParts _))
  have hdone : ∀ {m}, Held fuel (semParts ⟨block, created, key, none, mode, v⟩ + Z) fl m →
      Ends resCall (access block >>= fun _ => pure (⟨block, false, key, none, mode, v⟩ : Posix.PSemaphore)) m
        fun sem' m' => sem' = ⟨block, false, key, none, mode, v⟩ ∧ Held fuel (semParts sem' + Z) fl m' :=
    fun h => ends_access h hblock fun _ h => Ends.pure ⟨rfl, h⟩
  refine ends_access h (Multiset.mem_add.2 (.inl (block_mem_semParts _))) fun _ h => ?_
  cases hdl with
  | none => exact hdone h
  | some hdl =>
    refine ends_releasing (c := .semClose hdl) (Y := semParts ⟨block, created, key, none, mode, v⟩ + Z) h nofun rfl
      (fun _ => rfl) (fun _ => rfl) ?_ fun _ _ h => ends_access h hblock fun _ h => ?_
    · simp only [semParts, part, released]
      abel
    cases created with
    | false => exact hdone h
    | true =>
      cases key with
      | none => exact hdone h
      | some key =>
        refine ends_access h (Multiset.mem_add.2 (.inl (key_mem_semParts rfl))) fun _ h => ?_
        exact ends_releasing (c := .semUnlink key.chars) h nofun rfl (fun _ => rfl) (fun _ => rfl)
          (zero_add _).symm
          fun _ _ h => hdone h

theorem ends_pSemaphoreFree {sem : Posix.PSemaphore} (h : Held fuel (semParts sem + Z) fl m) :
    Ends resCall (pSemaphoreFree sem) m fun _ m' => Held fuel Z fl m' := by
  refine (ends_ppSemaphoreCleanHandle sem h).bind ?_
  rintro _ m' ⟨rfl, h⟩
  refine ends_access h (Multiset.mem_add.2 (.inl (block_mem_semParts _))) fun _ h => ?_
  obtain ⟨block, created, _ | key, hdl, mode, v⟩ := sem
  · exact ends_pFree aboutSegments_true h rfl fun _ h => Ends.pure h
  · refine ends_pFree aboutSegments_true (Y := {.block block} + Z) h ?_ fun _ h => ?_
    · simp only [semParts, keyParts, part]
      abel
    exact ends_pFree aboutSegments_true h rfl fun _ h => Ends.pure h

/-- The semaphore has been opened, or not. -/
theorem ends_semOpened {block : ℕ} {created : Bool} {key : Option PString} {mode : PSemaphoreAccessMode} {v : pint}
    (hkey : key.isSome) :
    ∀ {r : Except Errno ℕ}, (match r with
      | .error _ => Held fuel (semParts ⟨block, created, key, none, mode, v⟩ + Z) true m
      | .ok hdl => Held fuel ({.sem hdl} + (semParts ⟨block, created, key, none, mode, v⟩ + Z)) fl m) →
    Ends resCall (match r with
      | .ok hdl => pure (⟨block, created, key, some hdl, mode, v⟩, .ok ())
      | .error e => do
        let sem ← ppSemaphoreCleanHandle ⟨block, created, key, none, mode, v⟩
        return (sem, .error (lastError e "Failed to call sem_open() to create semaphore")) :
        ResM (Posix.PSemaphore × Except PError Unit)) m fun r m' => match r.2 with
      | .error _ => Held fuel (semParts r.1 + Z) true m'
      | .ok _ => key.isSome ∧ Held fuel (semParts r.1 + Z) fl m'
  | .error e, h => by
    refine (ends_ppSemaphoreCleanHandle ⟨block, created, key, none, mode, v⟩ h).bind ?_
    rintro _ m' ⟨rfl, h⟩
    exact Ends.pure h
  | .ok hdl, h => by
    refine Ends.pure ⟨hkey, ?_⟩
    have hX : {Resource.sem hdl} + (semParts ⟨block, created, key, none, mode, v⟩ + Z) =
        semParts ⟨block, created, key, some hdl, mode, v⟩ + Z := by
      simp only [semParts, part]
      abel
    exact hX ▸ h

theorem ends_ppSemaphoreCreateHandle (sem : Posix.PSemaphore) (hhdl : sem.sem_hdl = none)
    (h : Held fuel (semParts sem + Z) fl m) :
    Ends resCall (ppSemaphoreCreateHandle fuel sem) m fun r m' => match r.2 with
      | .error _ => Held fuel (semParts r.1 + Z) true m'
      | .ok _ => sem.platform_key.isSome ∧ Held fuel (semParts r.1 + Z) fl m' := by
  obtain ⟨block, created, key, hdl, mode, v⟩ := sem
  obtain rfl : hdl = none := hhdl
  have hblock : Resource.block block ∈ semParts ⟨block, created, key, none, mode, v⟩ + Z :=
    Multiset.mem_add.2 (.inl (block_mem_semParts _))
  refine ends_access h hblock fun _ h => ends_check h fun _ h => ?_
  cases key with
  | none => exact Ends.pure ((Bool.or_true fl) ▸ h)
  | some key =>
    replace h : Held fuel (semParts ⟨block, created, some key, none, mode, v⟩ + Z) fl _ := (Bool.or_false fl) ▸ h
    have hkey : Resource.block key.block ∈ semParts ⟨block, created, some key, none, mode, v⟩ + Z :=
      Multiset.mem_add.2 (.inl (key_mem_semParts rfl))
    refine ends_semOpenExcl aboutSegments_true hblock hkey h (fun hdl _ h => ?_)
      (fun _ h => ?_) fun e _ hne h => ?_
    · exact ends_semOpened rfl (r := .ok hdl) h
    · cases mode with
      | «open» =>
        exact ends_semOpen aboutSegments_true hblock hkey h (fun hdl _ h => ends_semOpened rfl (r := .ok hdl) h)
          fun e _ h => ends_semOpened rfl (r := .error e) h
      | create =>
        refine ends_access h hkey fun _ h => ends_releasing (c := .semUnlink key.chars) h nofun rfl (fun _ => rfl)
          (fun _ => rfl) (zero_add _).symm fun _ _ h => ?_
        exact ends_semOpen aboutSegments_true hblock hkey h (fun hdl _ h => ends_semOpened rfl (r := .ok hdl) h)
          fun e _ h => ends_semOpened rfl (r := .error e) h
    · cases e with
      | EEXIST => exact absurd rfl hne
      | _ => exact ends_semOpened rfl (r := .error _) h

/-- **`p_semaphore_new`** holds the parts of the semaphore, or what was held before it. -/
theorem ends_pSemaphoreNew (pf : Platform) (owner : Option ℕ) (name : List UInt8) (v : pint)
    (mode : PSemaphoreAccessMode)
    (howner : ∀ b ∈ owner, Resource.block b ∈ Z) (h : Held fuel Z fl m) :
    Ends resCall (pSemaphoreNew pf fuel owner name v mode) m fun r m' => match r with
      | .error _ => Held fuel Z true m'
      | .ok sem => Held fuel (semParts sem + Z) fl m' := by
  have hname : ∀ {Y m α R} {f : Unit → ResM α}, Held fuel (Y + Z) fl m →
      (∀ m', Held fuel (Y + Z) fl m' → Ends resCall (f ()) m' R) → Ends resCall (accessName owner >>= f) m R := by
    intro Y m α R f h hf
    cases owner with
    | none => exact hf m h
    | some b => exact ends_access h (Multiset.mem_add.2 (.inr (howner b rfl))) hf
  refine ends_check h fun _ h => ?_
  by_cases hv : v < 0
  · rw [decide_eq_false (Int32.not_le.2 hv)] at h
    rw [if_pos hv]
    exact Ends.pure ((Bool.or_true fl) ▸ h)
  rw [decide_eq_true (Int32.not_lt.1 hv)] at h
  replace h : Held fuel Z fl _ := (Bool.or_false fl) ▸ h
  rw [if_neg hv]
  refine ends_pMalloc0 aboutSegments_true h (fun _ h => Ends.pure h) fun ret _ h => hname h fun _ h => ?_
  refine ends_pMalloc0 aboutSegments_true h (fun _ h => ?_) fun new_name _ h => ?_
  · exact ends_pFree aboutSegments_true h rfl fun _ h => Ends.pure h
  rw [← add_assoc] at h
  refine hname h fun _ h => ends_access h (by simp) fun _ h => ?_
  refine (ends_pIpcGetPlatformKey pf (append_semSuffix_ne name) aboutSegments_true h (by simp)).bind ?_
  rintro key _ ⟨-, h⟩
  refine ends_access h (by simp) fun _ h => ?_
  refine ends_pFree aboutSegments_true (Y := {.block ret} + keyParts key + Z) h (by abel) fun _ h => ?_
  have hsem : semParts ⟨ret, false, key, none, mode, v⟩ = {.block ret} + keyParts key := add_zero _
  refine (ends_ppSemaphoreCreateHandle ⟨ret, false, key, none, mode, v⟩ rfl (hsem ▸ h)).bind ?_
  rintro ⟨sem, e | ⟨⟩⟩ _ h
  · exact (ends_pSemaphoreFree h).bind fun _ _ h => Ends.pure h
  · obtain ⟨hkey, h⟩ := h
    rw [Option.isNone_eq_false_iff.2 hkey, Bool.or_false] at h
    exact Ends.pure h

/-! ## Segments -/

variable {shm : Posix.PShm}

theorem block_mem_shmParts (shm : Posix.PShm) : Resource.block shm.block ∈ shmParts shm + Z := by
  rw [shmParts]
  simp

theorem key_mem_shmParts (shm : Posix.PShm) {key : PString} (hkey : key ∈ shm.platform_key) :
    Resource.block key.block ∈ shmParts shm + Z := by
  rw [shmParts, hkey, keyParts, part]
  simp

theorem ends_ppShmUnmap (hblock : Resource.block shm.block ∈ X) (h : Held fuel (mapParts shm + X) fl m) :
    Ends resCall (ppShmUnmap shm) m fun _ m' => Held fuel X fl m' := by
  obtain ⟨block, created, key, _ | addr, size, sem, perms⟩ := shm
  · exact ends_access h (Multiset.mem_add.2 (.inr hblock)) fun _ h => Ends.pure ((zero_add X) ▸ h)
  · refine ends_access h (Multiset.mem_add.2 (.inr hblock)) fun _ h => ?_
    exact ends_releasing (c := .munmap addr size) h nofun rfl (fun _ => rfl) (fun _ => rfl) rfl fun _ _ h =>
      Ends.pure h

theorem ends_ppShmUnlink (hblock : Resource.block shm.block ∈ X)
    (hkey : ∀ key ∈ shm.platform_key, Resource.block key.block ∈ X) (h : Held fuel X fl m) :
    Ends resCall (ppShmUnlink shm) m fun _ m' => Held fuel X fl m' := by
  refine ends_access h hblock fun _ h => ?_
  obtain ⟨block, _ | _, _ | key, addr, size, sem, perms⟩ := shm
  · exact Ends.pure h
  · exact Ends.pure h
  · exact Ends.pure h
  · refine ends_access h (hkey key rfl) fun _ h => ?_
    exact ends_releasing (c := .shmUnlink key.chars) h nofun rfl (fun _ => rfl) (fun _ => rfl) (zero_add _).symm
      fun _ _ h => Ends.pure h

theorem ends_ppShmFreeSem (hblock : Resource.block shm.block ∈ X) (h : Held fuel (optSemParts shm.sem + X) fl m) :
    Ends resCall (ppShmFreeSem shm) m fun _ m' => Held fuel X fl m' := by
  refine ends_access h (Multiset.mem_add.2 (.inr hblock)) fun _ h => ?_
  obtain ⟨block, created, key, addr, size, _ | sem, perms⟩ := shm
  · exact Ends.pure ((zero_add X) ▸ h)
  · exact ends_pSemaphoreFree h

theorem ends_ppShmCleanHandle (h : Held fuel (shmParts shm + Z) fl m) :
    Ends resCall (ppShmCleanHandle shm) m fun shm' m' =>
      shm' = { shm with shm_created := false, addr := none, size := 0, sem := none } ∧
        Held fuel (shmParts shm' + Z) fl m' := by
  let shm' : Posix.PShm := { shm with shm_created := false, addr := none, size := 0, sem := none }
  have hparts : shmParts shm + Z = mapParts shm + (optSemParts shm.sem + (shmParts shm' + Z)) := by
    simp only [shm', shmParts, mapParts, optSemParts]
    abel
  have hblock : Resource.block shm.block ∈ shmParts shm' + Z := block_mem_shmParts shm'
  have hkey : ∀ key ∈ shm.platform_key, Resource.block key.block ∈ shmParts shm' + Z :=
    fun key hkey => key_mem_shmParts shm' hkey
  rw [hparts] at h
  have hmem : ∀ {r}, r ∈ shmParts shm' + Z → r ∈ optSemParts shm.sem + (shmParts shm' + Z) :=
    fun hr => Multiset.mem_add.2 (.inr hr)
  refine (ends_ppShmUnmap (hmem hblock) h).bind fun _ _ h => ?_
  refine (ends_ppShmUnlink (hmem hblock) (fun key hk => hmem (hkey key hk)) h).bind fun _ _ h => ?_
  refine (ends_ppShmFreeSem hblock h).bind fun _ _ h => ?_
  exact ends_access h hblock fun _ h => Ends.pure ⟨rfl, h⟩

theorem ends_shmFailed (Q : Posix.PShm → Machine → Prop) (e : Errno) (message : String)
    (h : Held fuel (shmParts shm + Z) true m) :
    Ends resCall (shmFailed shm e message) m fun r m' => match r.2 with
      | .error _ => Held fuel (shmParts r.1 + Z) true m'
      | .ok _ => Q r.1 m' := by
  refine (ends_ppShmCleanHandle h).bind ?_
  rintro _ _ ⟨rfl, h⟩
  exact Ends.pure h

/-- **`p_shm_free`** releases the parts of the segment. -/
theorem ends_pShmFree (shm : Posix.PShm) (h : Held fuel (shmParts shm + Z) fl m) :
    Ends resCall (pShmFree shm) m fun _ m' => Held fuel Z fl m' := by
  refine (ends_ppShmCleanHandle h).bind ?_
  rintro _ _ ⟨rfl, h⟩
  refine ends_access h (block_mem_shmParts _) fun _ h => ?_
  obtain ⟨block, created, _ | key, addr, size, sem, perms⟩ := shm
  · exact ends_pFree aboutSegments_true h rfl fun _ h => Ends.pure h
  · refine ends_pFree aboutSegments_true (Y := {.block block} + Z) h ?_ fun _ h => ?_
    · simp only [shmParts, keyParts, mapParts, optSemParts, part]
      abel
    exact ends_pFree aboutSegments_true h rfl fun _ h => Ends.pure h

/-- The segment gets the size that it has, or the one that was asked for. -/
theorem ends_ppShmAttach (pf : Platform) {key : PString} {d : ℕ} {is_exists : Bool} {size : psize}
    (haddr : shm.addr = none) (hsem : shm.sem = none) (hkey : shm.platform_key = some key)
    (hsize : Ends resCall (ppShmSetSize shm d is_exists) m fun r m' => match r.2 with
      | .error _ => r.1 = shm ∧ Held fuel ({.fd d} + (shmParts shm + Z)) true m'
      | .ok _ => r.1 = { shm with size := size } ∧ Held fuel ({.fd d} + (shmParts shm + Z)) fl m') :
    Ends resCall (ppShmAttach pf fuel shm key d is_exists) m fun r m' => match r.2 with
      | .error _ => Held fuel (shmParts r.1 + Z) true m'
      | .ok _ => (∃ addr, r.1.addr = some addr) ∧ r.1.size = size ∧ Held fuel (shmParts r.1 + Z) fl m' := by
  have hfd : ∀ {X}, Resource.fd d ∈ ({Resource.fd d} : Multiset Resource) + X :=
    fun {X} => Multiset.mem_add.2 (.inl (Multiset.mem_singleton_self _))
  have hclose : ∀ {m fl X α R} {f : Except Errno Unit → ResM α}, Held fuel ({.fd d} + X) fl m →
      (∀ r m', Held fuel X fl m' → Ends resCall (f r) m' R) → Ends resCall (sys (.close d) >>= f) m R :=
    fun h hf => ends_releasing (c := .close d) h nofun rfl (fun _ => rfl) (fun _ => rfl) rfl hf
  have hfailed : ∀ {shm m} e message, Held fuel (shmParts shm + Z) true m →
    Ends resCall (shmFailed shm e message) m
      fun r m' => match r.2 with
        | .error _ => Held fuel (shmParts r.1 + Z) true m'
        | .ok _ => (∃ addr, r.1.addr = some addr) ∧ r.1.size = size ∧ Held fuel (shmParts r.1 + Z) fl m' :=
    ends_shmFailed fun shm m' => (∃ addr, shm.addr = some addr) ∧ shm.size = size ∧
      Held fuel (shmParts shm + Z) fl m'
  refine hsize.bind ?_
  rintro ⟨shm', ⟨e, message⟩ | ⟨⟩⟩ m' h
  · obtain ⟨rfl, h⟩ := h
    exact hclose h fun _ _ h => hfailed e message h
  · obtain ⟨rfl, h⟩ := h
    have hblock : Resource.block shm.block ∈ ({Resource.fd d} : Multiset Resource) + (shmParts shm + Z) :=
      Multiset.mem_add.2 (.inr (block_mem_shmParts shm))
    have hparts : ∀ addr, pageRange addr size + ({.fd d} + (shmParts shm + Z)) =
        {.fd d} + (shmParts { shm with size := size, addr := some addr } + Z) := by
      intro addr
      simp only [shmParts, mapParts, haddr, add_zero]
      abel
    have hsame : shmParts { shm with size := size, addr := none } = shmParts shm := by
      simp only [shmParts, mapParts, haddr]
    refine ends_access h hblock fun _ h => ends_mmap h hfd (fun addr _ h => ?_) fun e _ h => ?_
    · rw [hparts] at h
      have hblock' : Resource.block shm.block ∈
          ({Resource.fd d} : Multiset Resource) + (shmParts { shm with size := size, addr := some addr } + Z) :=
        Multiset.mem_add.2 (.inr (block_mem_shmParts { shm with size := size, addr := some addr }))
      refine ends_access h hblock' fun _ h => hclose h fun _ _ h => ?_
      refine (ends_pSemaphoreNew pf (some key.block) (stringBytes key.chars) 1 _ ?_ h).bind ?_
      · rintro _ ⟨⟩
        exact key_mem_shmParts { shm with size := size, addr := some addr } hkey
      rintro (e | sem) _ h
      · refine (ends_ppShmCleanHandle h).bind ?_
        rintro _ _ ⟨rfl, h⟩
        exact Ends.pure h
      · have hdone : semParts sem + (shmParts { shm with size := size, addr := some addr } + Z) =
            shmParts { shm with size := size, addr := some addr, sem := some sem } + Z := by
          simp only [shmParts, mapParts, optSemParts, hsem, add_zero]
          abel
        change Held fuel _ fl _ at h
        rw [hdone] at h
        refine ends_access h (block_mem_shmParts { shm with size := size, addr := some addr, sem := some sem })
          fun _ h => ?_
        exact Ends.pure ⟨⟨addr, rfl⟩, rfl, h⟩
    · refine ends_access h hblock fun _ h => hclose h fun _ _ h => ?_
      exact hfailed e _ (hsame.symm ▸ h)

/-- The size of the segment with a name, or of the one that is created. -/
def segmentSize (shms : Registry Path psize) (key : Path) (size : psize) : psize :=
  match shms.names key with
  | some n => shms.value n
  | none => size

section
variable {shms : Registry Path psize} {block d n : ℕ} {key : PString}

theorem ends_ppShmOpen (hblock : Resource.block block ∈ X) (hkey : Resource.block key.block ∈ X)
    (h : At fuel (fun s => s.shms = shms) X fl m) :
    Ends resCall (ppShmOpen fuel block key) m fun r m' => match r with
      | (_, .error _) => Held fuel X true m'
      | (true, .ok d) => ∃ n, shms.names key.chars = some n ∧ At fuel (Refers shms d n) ({.fd d} + X) fl m'
      | (false, .ok d) => shms.names key.chars = none ∧ Held fuel ({.fd d} + X) fl m' := by
  refine ends_shmOpenExcl hblock hkey h (fun d _ hnone h => Ends.pure ⟨hnone, h⟩)
    (fun _ h => ?_) fun e _ hne h => ?_
  · exact ends_shmOpen hblock hkey h (fun d n _ hname h => Ends.pure ⟨n, hname, h⟩) fun e _ h => Ends.pure h
  · cases e with
    | EEXIST => exact absurd rfl hne
    | _ => exact Ends.pure h

theorem ends_ppShmSetSize_exists (shm : Posix.PShm) (hblock : Resource.block shm.block ∈ X)
    (hd : Resource.fd d ∈ X)
    (h : At fuel (Refers shms d n) X fl m) : Ends resCall (ppShmSetSize shm d true) m fun r m' => match r.2 with
      | .error _ => r.1 = shm ∧ Held fuel X true m'
      | .ok _ => r.1 = { shm with size := shms.value n } ∧ Held fuel X fl m' :=
  ends_fstat h hd (fun _ h => ends_access h hblock fun _ h => Ends.pure ⟨rfl, h⟩) fun _ _ h => Ends.pure ⟨rfl, h⟩

theorem ends_ppShmSetSize_new (shm : Posix.PShm) (hblock : Resource.block shm.block ∈ X)
    (hd : Resource.fd d ∈ X) (h : Held fuel X fl m) :
    Ends resCall (ppShmSetSize shm d false) m fun r m' => match r.2 with
      | .error _ => r.1 = shm ∧ Held fuel X true m'
      | .ok _ => r.1 = { shm with size := shm.size } ∧ Held fuel X fl m' :=
  ends_access h hblock fun _ h => ends_ftruncate h hd (fun _ h => Ends.pure ⟨rfl, h⟩) fun _ _ h =>
    Ends.pure ⟨rfl, h⟩

end

theorem ends_ppShmCreateHandle (pf : Platform) (shm : Posix.PShm) {shms : Registry Path psize}
    (haddr : shm.addr = none)
    (hsem : shm.sem = none) (h : At fuel (fun s => s.shms = shms) (shmParts shm + Z) fl m) :
    Ends resCall (ppShmCreateHandle pf fuel shm) m fun r m' => match r.2 with
      | .error _ => Held fuel (shmParts r.1 + Z) true m'
      | .ok _ => ∃ key, shm.platform_key = some key ∧ (∃ addr, r.1.addr = some addr) ∧
          r.1.size = segmentSize shms key.chars shm.size ∧ Held fuel (shmParts r.1 + Z) fl m' := by
  refine ends_access h (block_mem_shmParts shm) fun _ h => ends_check h fun _ h => ?_
  obtain ⟨block, created, key, addr, size, sem, perms⟩ := shm
  obtain rfl : addr = none := haddr
  obtain rfl : sem = none := hsem
  cases key with
  | none => exact Ends.pure ((Bool.or_true fl) ▸ h.held)
  | some key =>
    replace h : At fuel _ (shmParts ⟨block, created, some key, none, size, none, perms⟩ + Z) fl _ :=
      (Bool.or_false fl) ▸ h
    refine (ends_ppShmOpen (block_mem_shmParts _) (key_mem_shmParts _ rfl) h).bind ?_
    have hmem : ∀ {r d}, r ∈ shmParts ⟨block, created, some key, none, size, none, perms⟩ + Z →
        r ∈ ({.fd d} : Multiset Resource) + (shmParts ⟨block, created, some key, none, size, none, perms⟩ + Z) :=
      fun hr => Multiset.mem_add.2 (.inr hr)
    have hfd : ∀ {d X}, Resource.fd d ∈ ({.fd d} : Multiset Resource) + X :=
      Multiset.mem_add.2 (.inl (Multiset.mem_singleton_self _))
    let Q : Posix.PShm → Machine → Prop := fun shm' m' => ∃ key', some key = some key' ∧
      (∃ addr, shm'.addr = some addr) ∧
      shm'.size = segmentSize shms key'.chars size ∧ Held fuel (shmParts shm' + Z) fl m'
    rintro ⟨_ | _, e | d⟩ _ h
    · exact ends_shmFailed Q e _ h
    · obtain ⟨hnone, h⟩ := h
      refine ends_access h (hmem (block_mem_shmParts _)) fun _ h => ?_
      refine (ends_ppShmAttach pf rfl rfl rfl
        (ends_ppShmSetSize_new ⟨block, true, some key, none, size, none, perms⟩
          (hmem (block_mem_shmParts _)) hfd h)).mono ?_
      rintro ⟨shm', e | ⟨⟩⟩ _ h
      · exact h
      · obtain ⟨haddr, hsize, h⟩ := h
        refine ⟨key, rfl, haddr, hsize.trans ?_, h⟩
        rw [segmentSize, hnone]
    · exact ends_shmFailed Q e _ h
    · obtain ⟨n, hname, h⟩ := h
      refine (ends_ppShmAttach pf rfl rfl rfl
        (ends_ppShmSetSize_exists _ (hmem (block_mem_shmParts _)) hfd h)).mono ?_
      rintro ⟨shm', e | ⟨⟩⟩ _ h
      · exact h
      · obtain ⟨haddr, hsize, h⟩ := h
        refine ⟨key, rfl, haddr, hsize.trans ?_, h⟩
        rw [segmentSize, hname]

/-- The pages that a handle of a smaller size does not describe. -/
def lost (addr : ℕ) (n size : psize) : Multiset Resource := pageRange addr n - pageRange addr size

theorem pages_mono {n n' : psize} (h : n ≤ n') : pages n ≤ pages n' :=
  Nat.div_le_div_right (Nat.add_le_add_right (UInt64.le_iff_toNat_le.1 h) _)

theorem pageRange_add_lost {addr : ℕ} {n size : psize} (h : size ≤ n) :
    pageRange addr size + lost addr n size = pageRange addr n := by
  refine add_tsub_cancel_of_le ?_
  exact Multiset.map_le_map (Multiset.range_le.2 (pages_mono h))

theorem lost_eq_zero_iff {addr : ℕ} {n size : psize} : lost addr n size = 0 ↔ pages n ≤ pages size := by
  rw [lost, tsub_eq_zero_iff_le]
  constructor
  · intro h
    have hcard := Multiset.card_le_card h
    rwa [pageRange, pageRange, Multiset.card_map, Multiset.card_map, Multiset.card_range,
      Multiset.card_range] at hcard
  · intro h
    exact Multiset.map_le_map (Multiset.range_le.2 h)

theorem clampSize_le (n size : psize) : clampSize n size ≤ n := by
  rw [clampSize]
  split
  · rename_i h
    exact UInt64.le_of_lt h.1
  · exact UInt64.le_refl n

/-- The handle describes a part of what is mapped. -/
theorem shmParts_resize {addr : ℕ} {size : psize} (haddr : shm.addr = some addr) (hle : size ≤ shm.size)
    (Z : Multiset Resource) :
    shmParts shm + Z = shmParts { shm with size := size } + (lost addr shm.size size + Z) := by
  obtain ⟨block, created, key, addr, size', sem, perms⟩ := shm
  obtain rfl := haddr
  simp only [shmParts, mapParts, ← pageRange_add_lost hle]
  abel

/-- **`p_shm_new`** holds the parts of the segment, and the pages that the handle does not describe. -/
theorem ends_pShmNew (pf : Platform) (name : List UInt8) (size : psize) (perms : PShmAccessPerms)
    {shms : Registry Path psize} (h : At fuel (fun s => s.shms = shms) Z fl m) :
    Ends resCall (pShmNew pf fuel name size perms) m fun r m' => match r with
      | .error _ => Held fuel Z true m'
      | .ok shm => ∃ addr, shm.size = clampSize (segmentSize shms (Posix.shmKey pf name) size) size ∧
          Held fuel
            (shmParts shm + (lost addr (segmentSize shms (Posix.shmKey pf name) size) shm.size + Z)) fl m' := by
  have hI : AboutSegments fun s => s.shms = shms := fun s s' hs hshms _ => hshms.trans hs
  refine ends_pMalloc0 hI h (fun _ h => Ends.pure h.held) fun ret _ h => ?_
  refine ends_pMalloc0 hI h (fun _ h => ?_) fun new_name _ h => ?_
  · refine (ends_pShmFree ⟨ret, false, none, none, 0, none, .readonly⟩ (Z := Z) ?_).bind fun _ _ h => Ends.pure h
    exact h.held
  refine ends_access h (by simp) fun _ h => ?_
  refine (ends_pIpcGetPlatformKey pf (append_shmSuffix_ne name) hI h (by simp)).bind ?_
  rintro key _ ⟨hchars, h⟩
  refine ends_access h (by simp) fun _ h => ?_
  refine ends_pFree hI (Y := {.block ret} + keyParts key + Z) h (by abel) fun _ h => ?_
  have hshm : shmParts ⟨ret, false, key, none, size, none, perms⟩ = {.block ret} + keyParts key := by
    simp only [shmParts, mapParts, optSemParts, add_zero]
  refine (ends_ppShmCreateHandle pf ⟨ret, false, key, none, size, none, perms⟩ rfl rfl (hshm ▸ h)).bind ?_
  rintro ⟨shm, e | ⟨⟩⟩ _ h
  · exact (ends_pShmFree shm h).bind fun _ _ h => Ends.pure h
  · obtain ⟨key', hkey, ⟨addr, haddr⟩, hsize, h⟩ := h
    obtain rfl : key = some key' := hkey
    rw [hchars key' rfl] at hsize
    change shm.size = segmentSize shms (Posix.shmKey pf name) size at hsize
    refine ends_access h (block_mem_shmParts _) fun _ h => ?_
    rw [Option.isNone_some, Bool.or_false] at h
    have hle := clampSize_le shm.size size
    rw [clampSize] at hle
    split at hle
    · rename_i hless
      rw [if_pos hless]
      refine Ends.pure ⟨addr, ?_, ?_⟩
      · rw [← hsize, clampSize, if_pos hless]
      · rw [← hsize]
        exact shmParts_resize haddr hle Z ▸ h
    · rename_i hmore
      rw [if_neg hmore]
      refine Ends.pure ⟨addr, ?_, ?_⟩
      · rw [← hsize, clampSize, if_neg hmore]
      · rw [← hsize]
        exact shmParts_resize haddr hle Z ▸ h

end Plibsys.Faults
