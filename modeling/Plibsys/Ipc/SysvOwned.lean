/-
  Which handles own the key files and the semaphores that a process has created (System V).

  A handle that creates both a key file and the semaphore with its key owns the semaphore only:
  the flag for the file is set, and then overwritten.
-/
import Plibsys.Ipc.SysvShmNew

namespace Plibsys.Sysv

open Programs Registries SysState Prog

/-- The handle will unlink the key file, or remove the semaphore. -/
def PSemaphore.OwnsFile (sem : PSemaphore) (path : Path) : Prop :=
  sem.file_created = true ∧ sem.platform_key.map PString.chars = some path

def PSemaphore.OwnsSem (sem : PSemaphore) (id : ℕ) : Prop := sem.sem_created = true ∧ sem.sem_hdl = some id

/-- A handle of a segment has one of a semaphore. -/
def PShm.OwnsFile (shm : PShm) (path : Path) : Prop :=
  shm.file_created = true ∧ shm.platform_key.map PString.chars = some path ∨
    ∃ sem, shm.sem = some sem ∧ sem.OwnsFile path

def PShm.OwnsSem (shm : PShm) (id : ℕ) : Prop := ∃ sem, shm.sem = some sem ∧ sem.OwnsSem id

/-- Every key file and every semaphore that has been created since the state `s₀` has an owner. -/
structure Owned (s₀ s : SysState) (paths : Path → Prop) (ids : ℕ → Prop) : Prop where
  files : ∀ path n, s.files.names path = some n → n < s₀.files.next ∨ paths path
  sems : ∀ key id, s.semIds.names key = some id → id < s₀.semIds.next ∨ ids id

variable {s₀ s s' : SysState} {paths paths' : Path → Prop} {ids ids' : ℕ → Prop} {key : PString}

namespace Owned

theorem mono (h : Owned s₀ s paths ids) (hpaths : ∀ path, paths path → paths' path)
    (hids : ∀ id, ids id → ids' id) :
    Owned s₀ s paths' ids' :=
  ⟨fun path n hn => (h.files path n hn).imp_right (hpaths path), fun key id hid =>
    (h.sems key id hid).imp_right (hids id)⟩

theorem congr (h : Owned s₀ s paths ids) (hfiles : s'.files.names = s.files.names)
    (hsems : s'.semIds.names = s.semIds.names) : Owned s₀ s' paths ids := by
  refine ⟨?_, ?_⟩
  · rw [hfiles]
    exact h.files
  · rw [hsems]
    exact h.sems

/-- A key file is unlinked. -/
theorem unlink {path : Path} (h : Owned s₀ s (fun p => paths p ∨ p = path) ids)
    (hfiles : ∀ p n, s'.files.names p = some n → s.files.names p = some n ∧ p ≠ path)
    (hsems : s'.semIds.names = s.semIds.names) : Owned s₀ s' paths ids := by
  refine ⟨fun p n hn => ?_, ?_⟩
  · obtain ⟨hn, hne⟩ := hfiles p n hn
    exact (h.files p n hn).imp_right fun hor => hor.resolve_right hne
  · rw [hsems]
    exact h.sems

/-- A semaphore is removed. -/
theorem remove {hdl : ℕ} (h : Owned s₀ s paths fun id => ids id ∨ id = hdl) :
    Owned s₀ { s with semIds := removeId s.semIds hdl } paths ids := by
  refine ⟨h.files, fun key id hid => ?_⟩
  have hname : (if s.semIds.names key = some hdl then none else s.semIds.names key) = some id := hid
  split_ifs at hname with hhdl
  refine (h.sems key id hname).imp_right fun hor => hor.resolve_right ?_
  rintro rfl
  exact hhdl hname

/-- A key file is created. -/
theorem createFile {path : Path} (h : Owned s₀ s paths ids) (hfiles : s'.files = s.files.create path ())
    (hsems : s'.semIds = s.semIds) : Owned s₀ s' (fun p => paths p ∨ p = path) ids := by
  refine ⟨fun p n hn => ?_, ?_⟩
  · by_cases hp : p = path
    · exact .inr (.inr hp)
    · rw [hfiles] at hn
      exact (h.files p n ((Function.update_of_ne hp ..).symm.trans hn)).imp_right .inl
  · rw [hsems]
    exact h.sems

/-- A semaphore is created. -/
theorem createSem {k : ℕ} (h : Owned s₀ s paths ids) :
    Owned s₀ { s with semIds := s.semIds.create k 0 } paths fun id => ids id ∨ id = s.semIds.next := by
  refine ⟨h.files, fun key id hid => ?_⟩
  have hname : Function.update s.semIds.names k (some s.semIds.next) key = some id := hid
  by_cases hkey : key = k
  · rw [hkey, Function.update_self] at hname
    exact .inr (.inr (Option.some.inj hname).symm)
  · rw [Function.update_of_ne hkey] at hname
    exact (h.sems key id hname).imp_right .inl

end Owned

/-! ## Semaphores -/

/-- The state with the key file. -/
def withKeyFile (s : SysState) (path : Path) : SysState :=
  if s.files.names path = none then { s with files := s.files.create path () } else s

/-- The call will not create both the key file and the semaphore. -/
def SemTaken (s : SysState) (path : Path) : Prop :=
  s.files.names path = none → s.semIds.names (fileKey s path) ≠ none

variable (s) in
/-- The key file is there after the call, and nothing else has changed. -/
theorem ends_keyFile (path : Path) : Ends sysCall (pIpcUnixCreateKeyFile path) s fun r s' =>
    r = .ok (decide (s.files.names path ≠ none)) ∧ s'.files = (withKeyFile s path).files ∧ s'.semIds = s.semIds ∧
      s'.shmIds = s.shmIds := by
  rcases hname : s.files.names path with _ | i
  · have hopen : (sys (.openExcl path)).exec sysCall s = some (.ok s.fds.next, { s with
        files := s.files.create path (), fds := s.fds.alloc none }) := by
      show some (sysCall (.openExcl path) s) = _
      rw [sysCall, hname]
      rfl
    have hclose : (sys (.close s.fds.next)).exec sysCall { s with
        files := s.files.create path (), fds := s.fds.alloc none } = some (.ok (), { s with
          files := s.files.create path (), fds := (s.fds.alloc none).free s.fds.next }) := by
      show some (sysCall (.close s.fds.next) _) = _
      rw [sysCall]
      dsimp only
      rw [Table.get_alloc]
    refine Ends.bind_of hopen (Ends.bind_of hclose (Ends.pure ⟨rfl, ?_, rfl, rfl⟩))
    rw [withKeyFile, if_pos hname]
  · have hopen : (sys (.openExcl path)).exec sysCall s = some (.error .EEXIST, s) := by
      show some (sysCall (.openExcl path) s) = _
      rw [sysCall, hname]
    refine Ends.bind_of hopen (Ends.pure ⟨rfl, ?_, rfl, rfl⟩)
    rw [withKeyFile, if_neg (hname ▸ Option.some_ne_none i)]

theorem names_withKeyFile (s : SysState) (path : Path) :
    (withKeyFile s path).files.names path = some (fileKey s path) := by
  rw [withKeyFile, fileKey]
  split
  · rename_i hnone
    rw [hnone]
    exact Registry.names_create ..
  · rename_i hsome
    obtain ⟨i, hi⟩ := Option.ne_none_iff_exists'.1 hsome
    rw [hi]
    rfl

/-- A new handle owns what it has created, unless it has created both. -/
theorem ends_createSemaphore_owned (sem : PSemaphore) (hkey : sem.platform_key = some key)
    (hfile : sem.file_created = false) (hsem : sem.sem_created = false) (h : Owned s₀ s paths ids)
    (htaken : SemTaken s key.chars) :
    Ends sysCall (ppSemaphoreCreateHandle sem) s fun r s' => r.2 = .ok () ∧
      Owned s₀ s' (fun p => paths p ∨ r.1.OwnsFile p) fun id => ids id ∨ r.1.OwnsSem id := by
  obtain ⟨block, file_created, sem_created, unix_key, platform_key, hdl, mode, init_val⟩ := sem
  obtain rfl : platform_key = some key := hkey
  obtain rfl : file_created = false := hfile
  obtain rfl : sem_created = false := hsem
  refine (ends_keyFile s key.chars).bind ?_
  rintro _ s₁ ⟨rfl, hfiles, hsems, -⟩
  have hname : s₁.files.names key.chars = some (fileKey s key.chars) := by
    rw [hfiles]
    exact names_withKeyFile ..
  refine Ends.bind_of (exec_ftok hname) (Ends.bind_of (exec_ppSemaphoreGet s₁ _) ?_)
  rw [hsems]
  by_cases hnone : s.files.names key.chars = none
  · -- a new key file, of a semaphore that exists
    obtain ⟨id, hid⟩ := Option.ne_none_iff_exists'.1 (htaken hnone)
    have howned : Owned s₀ s₁ (fun p => paths p ∨ p = key.chars) ids := by
      refine h.createFile ?_ hsems
      rw [hfiles, withKeyFile, if_pos hnone]
    rw [hid]
    refine (ends_ppSemaphoreSetValue ..).mono ?_
    rintro _ s₂ ⟨rfl, -, hfiles', hsems'⟩
    refine ⟨rfl, (howned.congr (congrArg _ hfiles') hsems').mono (fun p hp => hp.imp_right ?_) fun id => .inl⟩
    rintro rfl
    exact ⟨by simp [hnone], rfl⟩
  · have howned : Owned s₀ s₁ paths ids := by
      refine h.congr ?_ (congrArg _ hsems)
      rw [hfiles, withKeyFile, if_neg hnone]
    rcases hid : s.semIds.names (fileKey s key.chars) with _ | id
    · -- a new semaphore; the key file is taken
      refine (ends_ppSemaphoreSetValue ..).mono ?_
      rintro _ s₂ ⟨rfl, -, hfiles', hsems'⟩
      rw [← hsems] at hsems' ⊢
      refine ⟨rfl, (howned.createSem.congr (congrArg _ hfiles') hsems').mono (fun p => .inl) fun id hid => ?_⟩
      refine hid.imp_right ?_
      rintro rfl
      exact ⟨rfl, rfl⟩
    · refine (ends_ppSemaphoreSetValue ..).mono ?_
      rintro _ s₂ ⟨rfl, -, hfiles', hsems'⟩
      exact ⟨rfl, (howned.congr (congrArg _ hfiles') hsems').mono (fun p => .inl) fun id => .inl⟩

/-- A key file is unlinked, if it is still there. -/
theorem Owned.sysUnlink {path : Path} (h : Owned s₀ s (fun p => paths p ∨ p = path) ids) :
    Owned s₀ (sysCall (.unlink path) s).2 paths ids := by
  rw [sysCall]
  rcases hname : s.files.names path with _ | n
  · refine h.unlink (fun p n hn => ⟨hn, ?_⟩) rfl
    rintro rfl
    cases hname.symm.trans hn
  · refine h.unlink (fun p n hn => ?_) rfl
    have hn : Function.update s.files.names path none p = some n := hn
    by_cases hp : p = path
    · rw [hp, Function.update_self] at hn
      cases hn
    · rw [Function.update_of_ne hp] at hn
      exact ⟨hn, hp⟩

/-- What is done with the key file when a handle is cleaned. -/
def unlinkKeyFile (file_created : Bool) (platform_key : Option PString) (r : PSemaphore) : SysM PSemaphore := do
  if file_created then
    if let some key := platform_key then
      let _ ← sys (.unlink key.chars)
  return r

/-- A handle gives up what it owns. -/
theorem ends_cleanSemaphore_owned (sem : PSemaphore)
    (h : Owned s₀ s (fun p => paths p ∨ sem.OwnsFile p) fun id => ids id ∨ sem.OwnsSem id) :
    Ends sysCall (ppSemaphoreCleanHandle sem) s fun _ s' => Owned s₀ s' paths ids := by
  obtain ⟨block, file_created, sem_created, unix_key, platform_key, hdl, mode, init_val⟩ := sem
  have hunlink : ∀ s r, Owned s₀ s (fun p => paths p ∨ file_created = true ∧
    platform_key.map PString.chars = some p) ids →
      Ends sysCall (unlinkKeyFile file_created platform_key r) s fun _ s' => Owned s₀ s' paths ids := by
    intro s r h
    cases file_created with
    | false => exact Ends.pure (h.mono (fun p hp => hp.resolve_right (by simp)) fun _ => id)
    | true =>
      cases platform_key with
      | none => exact Ends.pure (h.mono (fun p hp => hp.resolve_right (by simp)) fun _ => id)
      | some key =>
        exact Ends.perform (Ends.pure (h.mono (fun p hp => hp.imp_right fun hkey =>
          (Option.some.inj hkey.2).symm) fun _ => id).sysUnlink)
  have hnone : (∀ id, ¬ (sem_created = true ∧ hdl = some id)) →
      Owned s₀ s (fun p => paths p ∨ file_created = true ∧ platform_key.map PString.chars = some p) ids :=
        fun hnot =>
    h.mono (fun _ => id) fun id hid => hid.resolve_right (hnot id)
  cases hdl with
  | none => exact hunlink s _ (hnone (by simp))
  | some hdl =>
    cases sem_created with
    | false => exact hunlink s _ (hnone (by simp))
    | true =>
      refine Ends.perform (hunlink _ _ ?_)
      exact (h.mono (fun _ => id) fun _ hid => hid.imp_right fun howns => (Option.some.inj howns.2).symm).remove

theorem ends_pSemaphoreFree_owned (sem : PSemaphore)
    (h : Owned s₀ s (fun p => paths p ∨ sem.OwnsFile p) fun id => ids id ∨ sem.OwnsSem id) :
    Ends sysCall (pSemaphoreFree sem) s fun _ s' => Owned s₀ s' paths ids := by
  refine (ends_cleanSemaphore_owned sem h).bind ?_
  rintro ⟨block, file_created, sem_created, unix_key, _ | key, hdl, mode, init_val⟩ s' h'
  · exact Ends.perform (Ends.pure (h'.congr rfl rfl))
  · exact Ends.perform (Ends.perform (Ends.pure (h'.congr rfl rfl)))

variable {pf : Platform}

theorem ends_pSemaphoreNew_owned (name : List UInt8) (v : pint) (mode : PSemaphoreAccessMode)
    (h : Owned s₀ s paths ids) (htaken : 0 ≤ v → SemTaken s (semaphoreKey pf name)) :
    Ends sysCall (pSemaphoreNew pf name v mode) s fun r s' => match r with
      | .error _ => Owned s₀ s' paths ids
      | .ok sem => Owned s₀ s' (fun p => paths p ∨ sem.OwnsFile p) fun id => ids id ∨ sem.OwnsSem id := by
  obtain ⟨block, heap, hkey⟩ := exec_pIpcGetPlatformKey pf (append_semSuffix_ne name) false
    { s with heap := (s.heap.alloc ()).alloc () }
  have hheap : ∀ heap, Owned s₀ { s with heap := heap } paths ids := fun _ => h.congr rfl rfl
  rw [pSemaphoreNew]
  by_cases hv : v < 0
  · rw [if_pos hv]
    exact Ends.pure h
  · rw [if_neg hv]
    refine Ends.bind_of (exec_pMalloc0 s) (Ends.bind_of (exec_pMalloc0 _) (Ends.bind_of hkey
      (Ends.bind_of (exec_pFree _ _) ((ends_createSemaphore_owned _ rfl rfl rfl (hheap _) ?_).bind ?_))))
    · exact htaken (Int32.not_lt.1 hv)
    · rintro ⟨sem, r⟩ s' ⟨rfl, howned⟩
      exact Ends.pure howned

/-! ## Segments -/

/-- The call will not create both the key file and the segment, nor both the key file and the semaphore
    of the segment. -/
structure ShmTaken (pf : Platform) (s : SysState) (path : Path) (size : psize) : Prop where
  segment : s.files.names path = none → s.shmIds.names (fileKey s path) = none → size = 0
  sem : s.shmIds.names (fileKey s path) ≠ none ∨ size ≠ 0 →
    SemTaken (withKeyFile s path) (semaphoreKey pf (stringBytes path))

theorem SemTaken.congr {path : Path} (h : SemTaken s path) (hfiles : s'.files = s.files)
    (hsems : s'.semIds = s.semIds) : SemTaken s' path := by
  rw [SemTaken, fileKey, hfiles, hsems]
  exact h

theorem ends_ppShmUnmap (shm : PShm) :
    Ends sysCall (ppShmUnmap shm) s fun _ s' => s'.files = s.files ∧ s'.semIds = s.semIds := by
  obtain ⟨block, created, unix_key, key, hdl, addr, size, sem, perms⟩ := shm
  rcases addr with _ | addr
  · exact Ends.pure ⟨rfl, rfl⟩
  · rcases hdl with _ | hdl
    · exact Ends.pure ⟨rfl, rfl⟩
    · have hdetach : (sysCall (.shmdt addr) s).2.files = s.files ∧
        (sysCall (.shmdt addr) s).2.semIds = s.semIds := by
        rw [sysCall]
        cases s.attached.get addr <;> exact ⟨rfl, rfl⟩
      refine Ends.perform (Ends.perform ?_)
      rw [sysCall]
      dsimp only
      split
      · exact Ends.perform (Ends.pure hdetach)
      · exact Ends.pure hdetach

/-- A handle gives up what it owns, and so does its semaphore. -/
theorem ends_cleanShm_owned (shm : PShm)
    (h : Owned s₀ s (fun p => paths p ∨ shm.OwnsFile p) fun id => ids id ∨ shm.OwnsSem id) :
    Ends sysCall (ppShmCleanHandle shm) s fun _ s' => Owned s₀ s' paths ids := by
  obtain ⟨block, created, unix_key, key, hdl, addr, size, sem, perms⟩ := shm
  rw [ppShmCleanHandle]
  refine (ends_ppShmUnmap _).bind ?_
  rintro _ s₁ ⟨hfiles, hsems⟩
  have h₁ := h.congr (congrArg _ hfiles) (congrArg _ hsems)
  refine Ends.bind (Q := fun _ s' => Owned s₀ s' (fun p => paths p ∨ ∃ sem', sem = some sem' ∧ sem'.OwnsFile p)
    fun id => ids id ∨ ∃ sem', sem = some sem' ∧ sem'.OwnsSem id) ?_ ?_
  · rw [ppShmUnlink]
    cases created with
    | false => exact Ends.pure (h₁.mono (fun p hp => hp.imp_right fun hp => hp.resolve_left (by simp)) fun _ => id)
    | true =>
      cases key with
      | none => exact Ends.pure (h₁.mono (fun p hp => hp.imp_right fun hp => hp.resolve_left (by simp)) fun _ => id)
      | some key =>
        refine Ends.perform (Ends.pure (h₁.mono (fun p hp => ?_) fun _ => id).sysUnlink)
        rcases hp with hp | ⟨-, hkey⟩ | hp
        · exact .inl (.inl hp)
        · exact .inr (Option.some.inj hkey).symm
        · exact .inl (.inr hp)
  · rintro _ s₂ h₂
    refine Ends.bind (Q := fun _ s' => Owned s₀ s' paths ids) ?_ fun _ _ h₃ => Ends.pure h₃
    rw [ppShmFreeSem]
    cases sem with
    | none => exact Ends.pure (h₂.mono (fun p hp => hp.resolve_right (by simp)) fun _ hid =>
        hid.resolve_right (by simp))
    | some sem =>
      refine ends_pSemaphoreFree_owned sem (h₂.mono (fun p hp => hp.imp_right ?_) fun _ hid => hid.imp_right ?_)
      · rintro ⟨_, ⟨⟩, howns⟩
        exact howns
      · rintro ⟨_, ⟨⟩, howns⟩
        exact howns

theorem ends_pShmFree_owned (shm : PShm)
    (h : Owned s₀ s (fun p => paths p ∨ shm.OwnsFile p) fun id => ids id ∨ shm.OwnsSem id) :
    Ends sysCall (pShmFree shm) s fun _ s' => Owned s₀ s' paths ids := by
  refine (ends_cleanShm_owned shm h).bind ?_
  rintro ⟨block, created, unix_key, _ | key, hdl, addr, size, sem, perms⟩ s' h'
  · exact Ends.perform (Ends.pure (h'.congr rfl rfl))
  · exact Ends.perform (Ends.perform (Ends.pure (h'.congr rfl rfl)))

/-- What a call that makes a handle leaves behind. -/
def ShmOwned (s₀ : SysState) (paths : Path → Prop) (ids : ℕ → Prop) (shm : PShm) (s : SysState) :
    Except PError Unit → Prop
  | .error _ => Owned s₀ s paths ids
  | .ok () => Owned s₀ s (fun p => paths p ∨ shm.OwnsFile p) fun id => ids id ∨ shm.OwnsSem id

variable {shm : PShm}

theorem ends_shmFailed_owned (e : Errno) (message : String)
    (h : Owned s₀ s (fun p => paths p ∨ shm.OwnsFile p) fun id => ids id ∨ shm.OwnsSem id) :
    Ends sysCall (shmFailed shm e message) s fun r s' => ShmOwned s₀ paths ids r.1 s' r.2 :=
  (ends_cleanShm_owned shm h).bind fun _ _ h => Ends.pure h

variable (pf) in
theorem ends_attach_owned (hdl : ℕ) (is_exists : Bool) (hsem : shm.sem = none)
    (h : Owned s₀ s (fun p => paths p ∨ shm.OwnsFile p) ids)
    (htaken : SemTaken s (semaphoreKey pf (stringBytes key.chars))) :
    Ends sysCall (ppShmAttach pf shm key hdl is_exists) s fun r s' => ShmOwned s₀ paths ids r.1 s' r.2 := by
  obtain ⟨block, created, unix_key, platform_key, hdl', addr, size, sem, perms⟩ := shm
  obtain rfl : sem = none := hsem
  rw [ppShmAttach]
  -- the segment is attached
  let s₁ := (sysCall (.shmat hdl) (sysCall (.shmStat hdl) s).2).2
  have htaken₁ : SemTaken s₁ (semaphoreKey pf (stringBytes key.chars)) := htaken.congr rfl rfl
  refine Ends.perform (Ends.perform ((ends_pSemaphoreNew_owned (s := s₁) _ 1 _ (h.congr rfl rfl)
      fun _ => htaken₁).bind ?_))
  rintro r s' hr
  cases r with
  | error e =>
    refine (ends_cleanShm_owned _ ?_).bind fun _ _ h => Ends.pure h
    exact hr.mono (fun p hp => hp) fun _ => .inl
  | ok sem =>
    refine Ends.pure (hr.mono (fun p hp => ?_) fun _ hid => hid.imp_right fun howns => ⟨sem, rfl, howns⟩)
    rcases hp with (hp | hp) | hp
    · exact .inl hp
    · exact .inr (.inl (hp.resolve_right (by simp)))
    · exact .inr (.inr ⟨sem, rfl, hp⟩)

variable (pf) in
theorem ends_createShm_owned (hkey : shm.platform_key = some key) (hfile : shm.file_created = false)
    (hsem : shm.sem = none) (h : Owned s₀ s paths ids) (htaken : ShmTaken pf s key.chars shm.size) :
    Ends sysCall (ppShmCreateHandle pf shm) s fun r s' => ShmOwned s₀ paths ids r.1 s' r.2 := by
  obtain ⟨block, created, unix_key, platform_key, hdl, addr, size, sem, perms⟩ := shm
  obtain rfl : platform_key = some key := hkey
  obtain rfl : created = false := hfile
  obtain rfl : sem = none := hsem
  refine (ends_keyFile s key.chars).bind ?_
  rintro _ s₁ ⟨rfl, hfiles, hsems, hshms⟩
  have hname : s₁.files.names key.chars = some (fileKey s key.chars) := by
    rw [hfiles]
    exact names_withKeyFile ..
  have hsemTaken : SemTaken (withKeyFile s key.chars) (semaphoreKey pf (stringBytes key.chars)) →
      SemTaken s₁ (semaphoreKey pf (stringBytes key.chars)) := fun h => h.congr hfiles (hsems.trans (by
        rw [withKeyFile]
        split <;> rfl))
  -- a key file that was created has an owner as long as the flag is not overwritten
  have howned : ∀ s₂, s₂.files = s₁.files → s₂.semIds = s₁.semIds →
      Owned s₀ s₂ (fun p => paths p ∨ s.files.names key.chars = none ∧ p = key.chars) ids := by
    intro s₂ hfiles₂ hsems₂
    refine (?_ : Owned s₀ s₁ _ ids).congr (congrArg _ hfiles₂) (congrArg _ hsems₂)
    by_cases hnone : s.files.names key.chars = none
    · refine (h.createFile ?_ hsems).mono (fun p hp => hp.imp_right fun hp => ⟨hnone, hp⟩) fun _ => id
      rw [hfiles, withKeyFile, if_pos hnone]
    · refine (h.congr ?_ (congrArg _ hsems)).mono (fun _ => .inl) fun _ => id
      rw [hfiles, withKeyFile, if_neg hnone]
  refine Ends.bind_of (exec_ftok hname) (Ends.bind_of (exec_ppShmGet s₁ _ _) ?_)
  rw [hshms]
  rcases hid : s.shmIds.names (fileKey s key.chars) with _ | n
  · by_cases hsize : size = 0
    · simp only [if_pos hsize]
      refine ends_shmFailed_owned _ _ ((howned s₁ rfl rfl).mono (fun p hp => hp.imp_right ?_) fun _ => .inl)
      rintro ⟨hnone, rfl⟩
      exact .inl ⟨by simp [hnone], rfl⟩
    · simp only [if_neg hsize]
      have hsome : s.files.names key.chars ≠ none := fun hnone => hsize (htaken.segment hnone hid)
      refine ends_attach_owned pf _ _ rfl ?_ ((hsemTaken (htaken.sem (.inr hsize))).congr rfl rfl)
      refine (howned _ ?_ ?_).mono (fun p hp => .inl (hp.resolve_right fun hp => hsome hp.1)) fun _ => id
      · rfl
      · rfl
  · refine ends_attach_owned pf _ _ rfl ((howned s₁ rfl rfl).mono (fun p hp => hp.imp_right ?_) fun _ => id)
      (hsemTaken (htaken.sem (.inl (hid ▸ Option.some_ne_none n))))
    rintro ⟨hnone, rfl⟩
    exact .inl ⟨by simp [hnone], rfl⟩

theorem ends_pShmNew_owned (name : List UInt8) (size : psize) (perms : PShmAccessPerms) (h : Owned s₀ s paths ids)
    (htaken : ShmTaken pf s (shmKey pf name) size) :
    Ends sysCall (pShmNew pf name size perms) s fun r s' => match r with
      | .error _ => Owned s₀ s' paths ids
      | .ok shm => Owned s₀ s' (fun p => paths p ∨ shm.OwnsFile p) fun id => ids id ∨ shm.OwnsSem id := by
  obtain ⟨block, key, heap, hkey, hexec⟩ := exec_pShmNew s pf name size perms
  have hheap : Owned s₀ { s with heap := heap } paths ids := h.congr rfl rfl
  have htaken' : ShmTaken pf { s with heap := heap } key.chars size := by
    rw [hkey]
    refine ⟨htaken.segment, fun hor => (htaken.sem hor).congr ?_ ?_⟩ <;>
    · rw [withKeyFile, withKeyFile]
      split <;> rfl
  let handle : PShm := ⟨block, false, none, some key, none, none, size, none, perms⟩
  have hplatform : handle.platform_key = some key := rfl
  obtain ⟨⟨shm, r⟩, s', hcreate, howned⟩ := ends_createShm_owned pf hplatform rfl rfl hheap htaken'
  rw [hcreate, Option.bind_some] at hexec
  cases r with
  | error e =>
    obtain ⟨_, s'', hfree, hdone⟩ := ends_pShmFree_owned shm (howned.mono (fun _ => .inl) fun _ => .inl)
    exact ⟨_, s'', hexec.trans (exec_bind_of hfree), hdone⟩
  | ok _ =>
    refine ⟨_, s', hexec, ?_⟩
    dsimp only
    split
    · exact howned
    · exact howned

end Plibsys.Sysv
