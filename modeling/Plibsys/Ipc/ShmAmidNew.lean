/-
  The whole call of `p_shm_new` by one process among others (POSIX).

  The handle refers to the segment and to the semaphore that have the names.  A segment whose size
  is too large stays empty, so that no call returns a handle.
-/
import Plibsys.Ipc.ShmAmid

namespace Plibsys.Posix

open Programs Registries SysState Prog

variable {pf : Platform} {name : List UInt8} {size : psize} {s s' : SysState} {alone : Prop} {fuel : ℕ}

/-! ## Failed calls -/

theorem stable_true : Stable pf name size alone fun _ => True := ⟨fun _ _ _ _ => trivial, fun _ _ _ => trivial⟩

/-- A handle with nothing to release but memory. -/
def PShm.Clean (shm : PShm) : Prop := shm.shm_created = false ∧ shm.addr = none ∧ shm.sem = none

theorem amid_pShmFree {shm : PShm} (hclean : shm.Clean) :
    (pShmFree shm).Amid sysCall (openers pf name size alone) (fun _ _ => True) s := by
  obtain ⟨block, created, key, addr, size', sem, perms⟩ := shm
  obtain ⟨rfl, rfl, rfl⟩ : created = false ∧ addr = none ∧ sem = none := hclean
  have hfree : ∀ s, (pFree block).Amid sysCall (openers pf name size alone) (fun _ _ => True) s :=
    fun s => amid_pFree stable_true block trivial fun _ _ => Amid.pure fun _ _ => trivial
  cases key with
  | none => exact hfree s
  | some key => exact amid_pFree stable_true key.block trivial fun s _ => hfree s

/-- The name of a segment that is too large may be removed. -/
theorem guar_unlink (hbig : ¬ size.toNat < 2 ^ 63) :
    (openers pf name size alone).guar (.shmUnlink (shmKey pf name)) s
    (sysCall (.shmUnlink (shmKey pf name)) s).2 := by
  rw [sysCall]
  rcases hname : s.shms.names (shmKey pf name) with _ | n
  · exact guar_of_eq id rfl rfl rfl
  · refine ⟨⟨fun hfit => absurd hfit hbig, fun _ _ => id, fun _ _ n hn => ?_, fun _ => id, ?_, Nat.le_refl _⟩,
      .of_eq rfl, rfl, id⟩
    · cases (Registry.names_remove ..).symm.trans hn
    · intro hnone m hm
      cases hnone.symm.trans hm

theorem amid_shmFailed {shm : PShm} {block : ℕ} (e : Errno) (message : String)
    (hkey : shm.platform_key = some ⟨block, shmKey pf name⟩) (haddr : shm.addr = none) (hsem : shm.sem = none)
    (hbig : shm.shm_created = true → ¬ size.toNat < 2 ^ 63) :
    (shmFailed shm e message).Amid sysCall (openers pf name size alone)
      (fun r _ => r.1.Clean ∧ r.2 = .error (lastError e message)) s := by
  obtain ⟨block', created, key, addr, size', sem, perms⟩ := shm
  obtain rfl : key = some ⟨block, shmKey pf name⟩ := hkey
  obtain rfl : addr = none := haddr
  obtain rfl : sem = none := hsem
  cases created with
  | false => exact Amid.pure fun _ _ => ⟨⟨rfl, rfl, rfl⟩, rfl⟩
  | true => exact Amid.perform fun s' _ _ => ⟨guar_unlink (hbig rfl), Amid.pure fun _ _ => ⟨⟨rfl, rfl, rfl⟩, rfl⟩⟩

/-! ## The segment -/

/-- Before the call. -/
structure Begins (pf : Platform) (name : List UInt8) (size : psize) (alone : Prop) (s : SysState) : Prop where
  interrupts : s.interrupts = []
  unsized : ¬ size.toNat < 2 ^ 63 → Unsized pf name s
  alone : alone → s.shms.names (shmKey pf name) = none → s.sems.names (lockKey pf name) = none

/-- The descriptor of the segment. -/
structure Opened (pf : Platform) (name : List UInt8) (size : psize) (fd n : ℕ) (s : SysState) : Prop where
  interrupts : s.interrupts = []
  fd : s.fds.get fd = some (some n)
  segment : size.toNat < 2 ^ 63 → s.shms.names (shmKey pf name) = some n
  zero : ¬ size.toNat < 2 ^ 63 → s.shms.value n = 0

/-- The mapping of the segment. -/
structure Mapped (pf : Platform) (name : List UInt8) (size : psize) (addr n : ℕ) (s : SysState) : Prop where
  interrupts : s.interrupts = []
  map : ∃ k, s.maps.get addr = some (n, k)
  fit : size.toNat < 2 ^ 63
  segment : s.shms.names (shmKey pf name) = some n

theorem stable_begins : Stable pf name size alone (Begins pf name size alone) := by
  refine ⟨fun s s' hs hr =>
    ⟨hr.1.interrupts.trans hs.interrupts, fun hbig => hr.1.grows.unsized hbig (hs.unsized hbig),
    fun ha => ?_⟩, fun s heap hs => ⟨hs.interrupts, hs.unsized, hs.alone⟩⟩
  rw [hr.2 ha]
  exact hs.alone ha

theorem stable_opened (fd n : ℕ) : Stable pf name size alone (Opened pf name size fd n) := by
  refine ⟨fun s s' hs hr =>
    ⟨hr.1.interrupts.trans hs.interrupts, ?_, fun hfit => hr.1.grows.segment hfit n (hs.segment hfit),
    fun hbig => hr.1.grows.zero hbig n (hs.zero hbig)⟩, fun s heap hs => ⟨hs.interrupts, hs.fd, hs.segment,
      hs.zero⟩⟩
  rw [hr.1.fds]
  exact hs.fd

theorem stable_mapped (addr n : ℕ) : Stable pf name size alone (Mapped pf name size addr n) := by
  refine ⟨fun s s' hs hr =>
    ⟨hr.1.interrupts.trans hs.interrupts, ?_, hs.fit, hr.1.grows.segment hs.fit n hs.segment⟩,
    fun s heap hs => ⟨hs.interrupts, hs.map, hs.fit, hs.segment⟩⟩
  rw [hr.1.maps]
  exact hs.map

theorem sysCall_shmOpenExcl (key : Path) (hint : s.interrupts = []) :
    sysCall (.shmOpenExcl key) s = match s.shms.names key with
      | some _ => (.error .EEXIST, s)
      | none => (.ok s.fds.next,
          { s with shms := s.shms.create key 0, fds := s.fds.alloc (some s.shms.next) }) := by
  rw [sysCall, interruptible_nil hint]
  cases s.shms.names key <;> rfl

theorem sysCall_shmOpen (key : Path) (hint : s.interrupts = []) :
    sysCall (.shmOpen key) s = match s.shms.names key with
      | some i => (.ok s.fds.next, { s with fds := s.fds.alloc (some i) })
      | none => (.error .ENOENT, s) := by
  rw [sysCall, interruptible_nil hint]
  cases s.shms.names key <;> rfl

/-- A segment is created, without a size. -/
theorem guar_createShm (fds : Table (Option ℕ)) (hnone : s.shms.names (shmKey pf name) = none) :
    (openers pf name size alone).guar (.shmOpenExcl (shmKey pf name)) s
      { s with shms := s.shms.create (shmKey pf name) 0, fds := fds } := by
  refine ⟨⟨fun _ n hn => ?_, fun _ n hn => ?_, fun _ _ n hn => ?_, fun _ => id, fun h m hm => ?_, Nat.le_refl _⟩,
    .of_eq rfl, rfl, id⟩
  · cases hnone.symm.trans hn
  · show Function.update s.shms.value s.shms.next 0 n = 0
    by_cases hnext : n = s.shms.next
    · rw [hnext, Function.update_self]
    · rw [Function.update_of_ne hnext]
      exact hn
  · cases (Registry.names_create ..).symm.trans hn
    exact Registry.value_create ..
  · cases h.symm.trans hm

theorem Begins.opened_create (hs : Begins pf name size alone s) : Opened pf name size s.fds.next s.shms.next
    { s with shms := s.shms.create (shmKey pf name) 0, fds := s.fds.alloc (some s.shms.next) } :=
  ⟨hs.interrupts, Table.get_alloc .., fun _ => Registry.names_create .., fun _ => Registry.value_create ..⟩

theorem opened_open {n : ℕ} (hint : s.interrupts = []) (hname : s.shms.names (shmKey pf name) = some n)
    (hunsized : ¬ size.toNat < 2 ^ 63 → Unsized pf name s) :
    Opened pf name size s.fds.next n { s with fds := s.fds.alloc (some n) } :=
  ⟨hint, Table.get_alloc .., fun _ => hname, fun hbig => hunsized hbig n hname⟩

/-- What the process has found under the name. -/
theorem amid_ppShmOpen (hs : Begins pf name size alone s) :
    (ppShmOpen (fuel + 1) (shmKey pf name)).Amid sysCall (openers pf name size alone)
      (fun r s' => match r with
        | (true, .error _) => True
        | (false, .error _) => False
        | (true, .ok fd) => ∃ n, Opened pf name size fd n s'
        | (false, .ok fd) => ∃ n, Opened pf name size fd n s' ∧ Unlocked pf name alone .create s') s := by
  refine (amid_retryEintr (Q := fun r s' => match r with
      | .error e => e = .EEXIST ∧ s'.interrupts = [] ∧
          (size.toNat < 2 ^ 63 → ∃ n, s'.shms.names (shmKey pf name) = some n) ∧
          (¬ size.toNat < 2 ^ 63 → Unsized pf name s')
      | .ok fd => ∃ n, Opened pf name size fd n s' ∧ Unlocked pf name alone .create s') ?_).bind_rely ?_
  · intro s' hr _
    have hs' := stable_begins.rely _ _ hs hr
    rw [sysCall_shmOpenExcl _ hs'.interrupts]
    rcases hname : s'.shms.names (shmKey pf name) with _ | n
    · have hfree : Unlocked pf name alone .create { s' with
          shms := s'.shms.create (shmKey pf name) 0, fds := s'.fds.alloc (some s'.shms.next) } :=
        fun _ ha => hs'.alone ha hname
      refine ⟨guar_createShm _ hname, fun s'' hr' => ⟨?_, s'.shms.next, ?_, ?_⟩⟩
      · rintro ⟨⟩
      · exact (stable_opened _ _).rely _ _ hs'.opened_create hr'
      · exact (stable_unlocked .create).rely _ _ hfree hr'
    · refine ⟨guar_of_eq id rfl rfl rfl,
        fun s'' hr' => ⟨?_, rfl, hr'.1.interrupts.trans hs'.interrupts, fun hfit => ?_,
        fun hbig => hr'.1.grows.unsized hbig (hs'.unsized hbig)⟩⟩
      · rintro ⟨⟩
      · exact ⟨n, hr'.1.grows.segment hfit n hname⟩
  · rintro (e | fd) s' hQ
    · obtain ⟨rfl, hint, hexists, hunsized⟩ := hQ s' ((openers pf name size alone).refl s')
      refine (amid_retryEintr (Q := fun r s' => match r with
        | .error _ => True
        | .ok fd => ∃ n, Opened pf name size fd n s') ?_).bind_rely ?_
      · intro s'' hr _
        rw [sysCall_shmOpen _ (hr.1.interrupts.trans hint)]
        rcases hname : s''.shms.names (shmKey pf name) with _ | n
        · exact ⟨guar_of_eq id rfl rfl rfl, fun _ _ => ⟨by rintro ⟨⟩, trivial⟩⟩
        · have hopened := opened_open (hr.1.interrupts.trans hint) hname
            fun hbig => hr.1.grows.unsized hbig (hunsized hbig)
          exact ⟨guar_of_eq id rfl rfl rfl,
            fun _ hr' => ⟨by rintro ⟨⟩, n, (stable_opened _ _).rely _ _ hopened hr'⟩⟩
      · rintro (e | fd) s'' hQ'
        · exact Amid.pure fun _ _ => trivial
        · exact Amid.pure fun s''' hr => hQ' s''' hr
    · exact Amid.pure fun s'' hr => hQ s'' hr

/-! ## The handle -/

/-- The handle refers to the segment and to the semaphore that have the names. -/
structure Shared (pf : Platform) (name : List UInt8) (size : psize) (shm : PShm) (n m : ℕ) (s : SysState) :
    Prop where
  refers : RefersTo s shm n m
  fit : size.toNat < 2 ^ 63
  segment : s.shms.names (shmKey pf name) = some n
  named : Named pf name m s

theorem Shared.rely {shm : PShm} {n m : ℕ} (hs : Shared pf name size shm n m s)
    (hr : (openers pf name size alone).rely s s') : Shared pf name size shm n m s' := by
  refine ⟨⟨?_, hs.refers.semaphore⟩, hs.fit, hr.1.grows.segment hs.fit n hs.segment, hr.1.grows.sem m hs.named⟩
  rw [hr.1.maps]
  exact hs.refers.segment

/-- The access mode of the semaphore. -/
def lockMode (is_exists : Bool) : PSemaphoreAccessMode := if is_exists then .open else .create

variable {shm : PShm} {fd n addr block : ℕ} {is_exists : Bool}

theorem guar_close : (openers pf name size alone).guar (.close fd) s (sysCall (.close fd) s).2 := by
  rw [sysCall]
  split <;> exact guar_of_eq id rfl rfl rfl

/-- After the descriptor is closed. -/
theorem Mapped.close (hs : Mapped pf name size addr n s) :
    Mapped pf name size addr n (sysCall (.close fd) s).2 := by
  rw [sysCall]
  split
  · exact ⟨hs.interrupts, hs.map, hs.fit, hs.segment⟩
  · exact hs

theorem Unlocked.close {mode : PSemaphoreAccessMode} (hs : Unlocked pf name alone mode s) :
    Unlocked pf name alone mode (sysCall (.close fd) s).2 := by
  rw [sysCall]
  split <;> exact hs

/-- A new segment gets its size, unless this is too large; the size of an existing one is 0 if it is too large. -/
theorem amid_ppShmSetSize (hsize : shm.size ≠ 0) (hreq : is_exists = false → shm.size = size)
    (hs : Opened pf name size fd n s) (hfree : Unlocked pf name alone (lockMode is_exists) s) :
    (ppShmSetSize shm fd is_exists).Amid sysCall (openers pf name size alone)
      (fun r s' => Opened pf name size fd n s' ∧ Unlocked pf name alone (lockMode is_exists) s' ∧
        ∃ v, r.1 = { shm with size := v } ∧ (is_exists = false → v ≠ 0) ∧
          (r.2 = .ok () ∧ (v ≠ 0 → size.toNat < 2 ^ 63) ∨ ∃ e, r.2 = .error e ∧ ¬ size.toNat < 2 ^ 63)) s := by
  have hstable : Stable pf name size alone fun s => Opened pf name size fd n s ∧
    Unlocked pf name alone (lockMode is_exists) s :=
    (stable_opened fd n).and (stable_unlocked (lockMode is_exists))
  cases is_exists with
  | true =>
    refine Amid.perform fun s' hr _ => ?_
    have h := hstable.rely _ _ ⟨hs, hfree⟩ hr
    rw [sysCall, h.1.fd]
    refine ⟨guar_of_eq id rfl rfl rfl, Amid.pure fun s'' hr' => ?_⟩
    obtain ⟨hs'', hfree''⟩ := hstable.rely _ _ h hr'
    refine ⟨hs'', hfree'', _, rfl, by rintro ⟨⟩, .inl ⟨rfl, fun hv => ?_⟩⟩
    by_contra hbig
    exact hv (h.1.zero hbig)
  | false =>
    obtain rfl := hreq rfl
    refine Amid.perform fun s' hr _ => ?_
    have h := hstable.rely _ _ ⟨hs, hfree⟩ hr
    rw [sysCall, h.1.fd]
    dsimp only
    by_cases hfit : shm.size.toNat < 2 ^ 63
    · rw [if_pos hfit]
      have h' : Opened pf name shm.size fd n { s' with shms := s'.shms.set n shm.size } :=
        ⟨h.1.interrupts, h.1.fd, h.1.segment, fun hbig => absurd hfit hbig⟩
      refine ⟨⟨⟨fun _ _ => id, fun hbig => absurd hfit hbig, fun hbig => absurd hfit hbig,
        fun _ => id, ?_, Nat.le_refl _⟩, .of_eq rfl, rfl, id⟩, Amid.pure fun s'' hr' => ?_⟩
      · intro hnone m hm
        cases hnone.symm.trans hm
      · obtain ⟨hs'', hfree''⟩ := hstable.rely _ _ ⟨h', h.2⟩ hr'
        exact ⟨hs'', hfree'', _, rfl, fun _ => hsize, .inl ⟨rfl, fun _ => hfit⟩⟩
    · rw [if_neg hfit]
      refine ⟨guar_of_eq id rfl rfl rfl, Amid.pure fun s'' hr' => ?_⟩
      obtain ⟨hs'', hfree''⟩ := hstable.rely _ _ h hr'
      exact ⟨hs'', hfree'', _, rfl, fun _ => hsize, .inr ⟨_, rfl, hfit⟩⟩

/-- A mapped segment gets its lock. -/
theorem amid_lock (hs : Mapped pf name size addr n s) (hfree : Unlocked pf name alone (lockMode is_exists) s)
    (haddr : shm.addr = some addr) :
    (do
      match ← pSemaphoreNew pf (fuel + 1) (stringBytes (shmKey pf name)) 1
          (if is_exists then .open else .create) with
      | .error e =>
        let shm ← ppShmCleanHandle shm
        return (shm, .error e)
      | .ok sem => return ({ shm with sem := some sem }, .ok ()) : SysM (PShm × Except PError Unit)).Amid sysCall
      (openers pf name size alone)
      (fun r s' => r.2 = .ok () ∧ ∃ n m, Shared pf name size r.1 n m s') s := by
  refine (amid_pSemaphoreNew (stable_mapped addr n) (fun s r hs => ⟨hs.interrupts, hs.map, hs.fit, hs.segment⟩)
    (fun s hs => hs.interrupts) (lockMode is_exists) hs hfree).bind ?_
  rintro _ s' ⟨hs', sem, m, rfl, hhdl, hm⟩
  obtain ⟨k, hk⟩ := hs'.map
  have hshared : Shared pf name size { shm with sem := some sem } n m s' :=
    ⟨⟨⟨addr, k, haddr, hk⟩, sem, rfl, hhdl⟩, hs'.fit, hs'.segment, hm⟩
  exact Amid.pure fun _ hr => ⟨rfl, n, m, hshared.rely hr⟩

/-- The segment is mapped, unless its size is 0. -/
theorem amid_ppShmAttach (hsize : shm.size ≠ 0) (hreq : is_exists = false → shm.size = size)
    (hs : Opened pf name size fd n s) (hfree : Unlocked pf name alone (lockMode is_exists) s)
    (hkey : shm.platform_key = some ⟨block, shmKey pf name⟩) (haddr : shm.addr = none) (hsem : shm.sem = none)
    (hcreated : shm.shm_created = !is_exists) :
    (ppShmAttach pf (fuel + 1) shm ⟨block, shmKey pf name⟩ fd is_exists).Amid sysCall (openers pf name size alone)
      (fun r s' => match r.2 with
        | .error _ => r.1.Clean
        | .ok () => ∃ n m, Shared pf name size r.1 n m s') s := by
  have hfailed : ∀ shm' : PShm, ∀ e message s, shm'.platform_key = some ⟨block, shmKey pf name⟩ →
    shm'.addr = none →
      shm'.sem = none → (shm'.shm_created = true → ¬ size.toNat < 2 ^ 63) → (do
        let _ ← sys (.close fd)
        shmFailed shm' e message : SysM (PShm × Except PError Unit)).Amid sysCall (openers pf name size alone)
      (fun r s' => match r.2 with
        | .error _ => r.1.Clean
        | .ok () => ∃ n m, Shared pf name size r.1 n m s') s := by
    intro shm' e message s hkey haddr hsem hbig
    refine Amid.perform fun s' _ _ => ⟨guar_close, (amid_shmFailed e message hkey haddr hsem hbig).mono ?_⟩
    rintro ⟨shm'', _⟩ s'' ⟨hclean, rfl⟩
    exact hclean
  refine (amid_ppShmSetSize hsize hreq hs hfree).bind ?_
  rintro ⟨_, _⟩ s' ⟨hs', hfree', v, rfl, hv, ⟨rfl, hfit⟩ | ⟨⟨e, message⟩, rfl, hbig⟩⟩
  · refine Amid.perform fun s'' hr _ => ?_
    have hs'' := (stable_opened fd n).rely _ _ hs' hr
    rw [sysCall, hs''.fd]
    dsimp only
    by_cases hzero : v = 0
    · rw [if_pos hzero]
      refine ⟨guar_of_eq id rfl rfl rfl, hfailed _ _ _ _ hkey rfl hsem fun hcr => ?_⟩
      refine absurd hzero (hv ?_)
      cases is_exists with
      | true => cases hcreated.symm.trans hcr
      | false => rfl
    · rw [if_neg hzero]
      refine ⟨guar_of_eq id rfl rfl rfl, Amid.perform fun s₁ hr₁ _ => ⟨guar_close, ?_⟩⟩
      have hmapped : Mapped pf name size s''.maps.next n { s'' with maps := s''.maps.alloc (n, pages v) } :=
        ⟨hs''.interrupts, ⟨_, Table.get_alloc ..⟩, hfit hzero, hs''.segment (hfit hzero)⟩
      have hfree'' : Unlocked pf name alone (lockMode is_exists) { s'' with maps := s''.maps.alloc (n, pages v) } :=
        (stable_unlocked _).rely s' s'' hfree' hr
      obtain ⟨hmap, hfree₁⟩ := ((stable_mapped _ n).and (stable_unlocked _)).rely _ _ ⟨hmapped, hfree''⟩ hr₁
      refine (amid_lock hmap.close hfree₁.close rfl).mono ?_
      rintro ⟨shm', _⟩ s₂ ⟨rfl, n, m, hshared⟩
      exact ⟨n, m, hshared⟩
  · exact hfailed _ _ _ _ hkey haddr hsem fun _ => hbig

variable (shm) in
theorem amid_ppShmCreateHandle (hsize : shm.size = size) (hne : size ≠ 0) (hs : Begins pf name size alone s)
    (hkey : shm.platform_key = some ⟨block, shmKey pf name⟩) (haddr : shm.addr = none) (hsem : shm.sem = none)
    (hcreated : shm.shm_created = false) :
    (ppShmCreateHandle pf (fuel + 1) shm).Amid sysCall (openers pf name size alone)
      (fun r s' => match r.2 with
        | .error _ => r.1.Clean
        | .ok () => ∃ n m, Shared pf name size r.1 n m s') s := by
  rw [ppShmCreateHandle, hkey]
  refine (amid_ppShmOpen hs).bind ?_
  rintro ⟨is_exists, e | fd⟩ s' h
  · cases is_exists with
    | false => exact h.elim
    | true =>
      refine (amid_shmFailed e _ hkey haddr hsem fun hcr => ?_).mono ?_
      · cases hcreated.symm.trans hcr
      · rintro ⟨shm', _⟩ s'' ⟨hclean, rfl⟩
        exact hclean
  · cases is_exists with
    | true =>
      obtain ⟨n, hs'⟩ := h
      exact amid_ppShmAttach (hsize ▸ hne) (by rintro ⟨⟩) hs' (by rintro ⟨⟩) hkey haddr hsem hcreated
    | false =>
      obtain ⟨n, hs', hfree⟩ := h
      have hfree' : Unlocked pf name alone (lockMode false) s' := hfree
      exact amid_ppShmAttach (hsize ▸ hne) (fun _ => hsize) hs' hfree' rfl haddr hsem rfl

/-- **One call among others**: a handle that is returned refers to what has the names. -/
theorem amid_pShmNew (perms : PShmAccessPerms) (hne : size ≠ 0) (hs : Begins pf name size alone s) :
    (pShmNew pf (fuel + 1) name size perms).Amid sysCall (openers pf name size alone)
      (fun r s' => ∀ shm, r = .ok shm → ∃ n m, Shared pf name size shm n m s') s := by
  have hB : Stable pf name size alone (Begins pf name size alone) := stable_begins
  refine amid_pMalloc0 hB hs fun ret _ hs => amid_pMalloc0 hB hs fun new_name _ hs => ?_
  refine (amid_pIpcGetPlatformKey hB (append_shmSuffix_ne name) hs).bind ?_
  rintro _ _ ⟨⟨block, rfl⟩, hs⟩
  refine amid_pFree hB new_name hs fun _ hs => ?_
  refine (amid_ppShmCreateHandle ⟨ret, false, some ⟨block, shmKey pf name⟩, none, size, none, perms⟩
    rfl hne hs rfl rfl rfl rfl).bind ?_
  rintro ⟨shm, e | _⟩ s' h
  · exact (amid_pShmFree h).bind fun _ _ _ => Amid.pure fun _ _ => by rintro _ ⟨⟩
  · obtain ⟨n, m, hshared⟩ := h
    dsimp only
    split
    · refine Amid.pure fun s'' hr shm' heq => ?_
      cases heq
      have h' := hshared.rely hr
      exact ⟨n, m, ⟨h'.refers.segment, h'.refers.semaphore⟩, h'.fit, h'.segment, h'.named⟩
    · refine Amid.pure fun s'' hr shm' heq => ?_
      cases heq
      exact ⟨n, m, hshared.rely hr⟩

end Plibsys.Posix
