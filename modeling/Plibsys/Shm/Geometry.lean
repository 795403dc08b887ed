/-
  The sizes of the buffers that are opened under one name.

  The first buffer decides about the segment, but `p_shm_new` gives a later handle the size that
  was asked for when that size is smaller.
-/
import Plibsys.Ipc.PosixShmNew
import Plibsys.Ipc.SysvShmNew
import Plibsys.Shm.BufferNew

namespace Plibsys

open Programs Prog

variable (pf : Platform) (fuel : ℕ)

/-! ## The implementations -/

def Posix.shmInterface : ShmInterface where
  Shm := Posix.PShm
  new := Posix.pShmNew pf fuel
  free := Posix.pShmFree
  size shm := shm.size

def Sysv.shmInterface : ShmInterface where
  Shm := Sysv.PShm
  new := Sysv.pShmNew pf
  free := Sysv.pShmFree
  size shm := shm.size

variable (name : List UInt8)

def Posix.segmentSpec : SegmentSpec (Posix.shmInterface pf fuel) name where
  holds n s := Posix.HasSegment s fuel pf name n
  lent shm _ := shm.shm_created = false
  heap _ h := h.of_shms rfl (Nat.le_refl _)
  new _ _ h := (Posix.ends_pShmNew_exists h).mono fun _ _ ⟨h', shm, hr, hlent, hsize⟩ =>
    ⟨h', shm, hr, hlent, hsize⟩
  free {_ _ shm} h hlent := (Posix.ends_pShmFree shm).mono fun _ _ ⟨hshms, hint⟩ =>
    h.of_shms (hshms hlent) (Nat.le_of_eq (congrArg List.length hint))

def Sysv.segmentSpec : SegmentSpec (Sysv.shmInterface pf) name where
  holds n s := Sysv.HasSegment s pf name n
  lent shm s := Sysv.Lent s shm
  heap _ h := ⟨h.segment.imp fun _ ⟨hdl, ha⟩ => ⟨hdl, ha.file, ha.segment, ha.size, ha.attached⟩, h.sem⟩
  new _ _ h := (Sysv.ends_pShmNew_exists h).mono fun _ _ ⟨h', shm, hr, hlent, hsize⟩ =>
    ⟨h', shm, hr, hlent, hsize⟩
  free h hlent := (Sysv.ends_pShmFree_lent hlent).mono fun _ _ ⟨hfiles, hsems, hshms, hattached⟩ => by
    obtain ⟨⟨i, hdl, ha⟩, j, k, hj, hk⟩ := h
    exact ⟨⟨i, hdl, hfiles ▸ ha.file, hshms ▸ ha.segment, hshms ▸ ha.size, hattached hdl ha.attached⟩,
      j, k, hfiles ▸ hj, hsems ▸ hk⟩

/-- The two implementations of `PShm` for UNIX-like systems. -/
inductive ShmPlatform where
  | posix
  | sysv
  deriving DecidableEq, Repr

def ShmPlatform.interface : ShmPlatform → ShmInterface
  | .posix => Posix.shmInterface pf fuel
  | .sysv => Sysv.shmInterface pf

def ShmPlatform.spec : (os : ShmPlatform) → SegmentSpec (os.interface pf fuel) name
  | .posix => Posix.segmentSpec pf fuel name
  | .sysv => Sysv.segmentSpec pf name

/-- There is no segment of the name. -/
def ShmPlatform.unused (s : SysState) : ShmPlatform → Prop
  | .posix => s.shms.names (Posix.shmKey pf name) = none
  | .sysv => s.shmIds.names (Sysv.fileKey s (Sysv.shmKey pf name)) = none

/-- A segment of that size can be created. -/
def ShmPlatform.creatable (size : psize) (s : SysState) : ShmPlatform → Prop
  | .posix => Posix.Creatable s pf (Posix.shmKey pf name) size
  | .sysv => size ≠ 0

variable {pf fuel name} {s s₁ : SysState} {os : ShmPlatform}

/-- A new segment has the size that was asked for. -/
theorem ends_new_unused (hunused : os.unused pf name s) (hfuel : s.interrupts.length < fuel) (size : psize)
    (perms : PShmAccessPerms) :
    Ends sysCall ((os.interface pf fuel).new name size perms) s fun r s' =>
      (¬ os.creatable pf name size s ∧ ∃ e, r = .error e) ∨ (os.spec pf fuel name).holds size s' ∧
        ∃ shm, r = .ok shm ∧ (os.interface pf fuel).size shm = size := by
  cases os with
  | posix => exact Posix.ends_pShmNew_new hunused hfuel
  | sysv =>
    refine (Sysv.ends_pShmNew_new hunused).mono ?_
    rintro r s' (⟨hzero, he⟩ | h)
    · exact .inl ⟨fun hne => hne hzero, he⟩
    · exact .inr h

/-! ## The first buffer -/

/-- The first buffer decides about the segment. -/
theorem first_holds {t : psize} {buf : ShmBufferHandle (os.interface pf fuel)} (hunused : os.unused pf name s)
    (hfuel : s.interrupts.length < fuel)
    (hfirst : (pShmBufferNew (os.interface pf fuel) name t).exec sysCall s = some (.ok buf, s₁)) :
    (os.spec pf fuel name).holds (shmBufferSegmentSize t) s₁ ∧
      shmBufferDataOffset + 1 < shmBufferSegmentSize t ∧
        buf.size = shmBufferSegmentSize t - shmBufferDataOffset := by
  obtain ⟨r, s', hnew, ⟨-, e, rfl⟩ | ⟨hholds, shm, rfl, hsize⟩⟩ :=
    ends_new_unused hunused hfuel (shmBufferSegmentSize t) .readwrite
  · rw [pShmBufferNew, exec_bind_of hnew] at hfirst
    cases hfirst
  · rw [pShmBufferNew, exec_bind_of hnew] at hfirst
    dsimp only at hfirst
    rw [hsize] at hfirst
    split at hfirst
    · rw [exec_bind] at hfirst
      obtain ⟨r, -, hr⟩ := Option.bind_eq_some_iff.1 hfirst
      cases hr
    · rename_i hlarge
      rw [exec_bind_of (exec_pMalloc0 s')] at hfirst
      cases hfirst
      exact ⟨(os.spec pf fuel name).heap _ hholds, UInt64.not_le.1 hlarge, rfl⟩

variable (os pf fuel name) in
/-- The first buffer is created, when it is large enough. -/
theorem first_creates (t : psize) (hunused : os.unused pf name s) (hfuel : s.interrupts.length < fuel)
    (hcreatable : os.creatable pf name (shmBufferSegmentSize t) s)
    (hlarge : shmBufferDataOffset + 1 < shmBufferSegmentSize t) :
    ∃ buf s₁, (pShmBufferNew (os.interface pf fuel) name t).exec sysCall s = some (.ok buf, s₁) := by
  obtain ⟨r, s', hnew, ⟨hnot, -⟩ | ⟨hholds, shm, rfl, hsize⟩⟩ :=
    ends_new_unused hunused hfuel (shmBufferSegmentSize t) .readwrite
  · exact absurd hcreatable hnot
  · rw [pShmBufferNew, exec_bind_of hnew]
    dsimp only
    rw [hsize, if_neg (UInt64.not_le.2 hlarge), exec_bind_of (exec_pMalloc0 s')]
    exact ⟨_, _, rfl⟩

/-! ## Later buffers -/

/-- A later call agrees with the segment, or gives no buffer. -/
def KeepsGeometry (t t' : psize) : Prop :=
  shmBufferSegmentSize t' ≤ shmBufferDataOffset + 1 ∨ shmBufferSegmentSize t ≤ shmBufferSegmentSize t'

theorem openedSize_agrees {n t : psize} (hn : shmBufferDataOffset + 1 < n) :
    (∀ m, openedSize n t = some m → m = n - shmBufferDataOffset) ↔
      shmBufferSegmentSize t ≤ shmBufferDataOffset + 1 ∨ n ≤ shmBufferSegmentSize t := by
  have hzero : (0 : psize) ≤ shmBufferDataOffset + 1 := by decide
  rw [openedSize]
  generalize shmBufferSegmentSize t = q
  by_cases hsmaller : n > q ∧ q ≠ 0
  · -- the handle gets the smaller size
    rw [clampSize, if_pos hsmaller]
    split
    · rename_i hsmall
      refine ⟨fun _ => .inl hsmall, fun _ m hm => ?_⟩
      cases hm
    · rename_i hlarge
      constructor
      · intro h
        have heq : q = n := by
          rw [← UInt64.sub_add_cancel q shmBufferDataOffset, h _ rfl, UInt64.sub_add_cancel]
        exact absurd (heq ▸ hsmaller.1) (UInt64.lt_irrefl q)
      · rintro (hsmall | hle)
        · exact absurd hsmall hlarge
        · exact absurd hle (UInt64.not_le.2 hsmaller.1)
  · rw [clampSize, if_neg hsmaller, if_neg (UInt64.not_le.2 hn)]
    refine ⟨fun _ => ?_, fun _ m hm => (Option.some.inj hm).symm⟩
    by_cases hq : q = 0
    · exact .inl (hq ▸ hzero)
    · exact .inr (UInt64.not_lt.1 fun hlt => hsmaller ⟨hlt, hq⟩)

/-- **The sizes of the buffers of one name**: they agree exactly when no later call asks for a
    smaller one. -/
theorem pShmBufferNew_sizes {t : psize} {buf : ShmBufferHandle (os.interface pf fuel)}
    (hunused : os.unused pf name s) (hfuel : s.interrupts.length < fuel)
    (hfirst : (pShmBufferNew (os.interface pf fuel) name t).exec sysCall s = some (.ok buf, s₁))
    (ts : List psize) :
    Ends sysCall (newBuffers (os.interface pf fuel) name ts) s₁ fun rs _ =>
      (∀ buf', .ok buf' ∈ rs → buf'.size = buf.size) ↔ ∀ t' ∈ ts, KeepsGeometry t t' := by
  obtain ⟨hholds, hlarge, hsize⟩ := first_holds hunused hfuel hfirst
  refine (ends_newBuffers _ hholds ts).mono ?_
  rintro rs s' ⟨-, hrs⟩
  have hmem : ∀ m, (∃ buf', .ok buf' ∈ rs ∧ buf'.size = m) ↔
      ∃ t' ∈ ts, openedSize (shmBufferSegmentSize t) t' = some m := by
    intro m
    rw [← List.mem_map, ← hrs, List.mem_map]
    constructor
    · rintro ⟨buf', hbuf', rfl⟩
      exact ⟨_, hbuf', rfl⟩
    · rintro ⟨_ | buf', hr, hm⟩
      · cases hm
      · exact ⟨buf', hr, Option.some.inj hm⟩
  rw [hsize]
  constructor
  · intro h t' ht'
    refine (openedSize_agrees hlarge).1 fun m hm => ?_
    obtain ⟨buf', hbuf', rfl⟩ := (hmem m).2 ⟨t', ht', hm⟩
    exact h buf' hbuf'
  · intro h buf' hbuf'
    obtain ⟨t', ht', hm⟩ := (hmem _).1 ⟨buf', hbuf', rfl⟩
    exact (openedSize_agrees hlarge).2 (h t' ht') _ hm

/-- No buffer, a larger one, and one of any size. -/
theorem pShmBufferNew_sizes_larger :
    ∃ buf s₁, (pShmBufferNew (ShmPlatform.posix.interface ⟨.little, ['/']⟩ 1) [97] 2).exec sysCall .empty =
        some (.ok buf, s₁) ∧
      Ends sysCall (newBuffers (ShmPlatform.posix.interface ⟨.little, ['/']⟩ 1) [97] [0, 5]) s₁ fun rs _ =>
        (∀ buf', .ok buf' ∈ rs → buf'.size = buf.size) ↔ ∀ t' ∈ [0, 5], KeepsGeometry 2 t' := by
  have hunused : ShmPlatform.posix.unused ⟨.little, ['/']⟩ [97] .empty := rfl
  obtain ⟨buf, s₁, hfirst⟩ := first_creates ⟨.little, ['/']⟩ 1 [97] .posix 2 hunused Nat.zero_lt_one
    ⟨by decide, by decide, rfl⟩ (by decide)
  exact ⟨buf, s₁, hfirst, pShmBufferNew_sizes hunused Nat.zero_lt_one hfirst [0, 5]⟩

/-- A smaller buffer. -/
theorem pShmBufferNew_sizes_smaller :
    ∃ buf s₁, (pShmBufferNew (ShmPlatform.posix.interface ⟨.little, ['/']⟩ 1) [97] 2).exec sysCall .empty =
        some (.ok buf, s₁) ∧
      Ends sysCall (newBuffers (ShmPlatform.posix.interface ⟨.little, ['/']⟩ 1) [97] [1]) s₁ fun rs _ =>
        ¬ ∀ buf', .ok buf' ∈ rs → buf'.size = buf.size := by
  have hunused : ShmPlatform.posix.unused ⟨.little, ['/']⟩ [97] .empty := rfl
  obtain ⟨buf, s₁, hfirst⟩ := first_creates ⟨.little, ['/']⟩ 1 [97] .posix 2 hunused Nat.zero_lt_one
    ⟨by decide, by decide, rfl⟩ (by decide)
  obtain ⟨hholds, -, hsize⟩ := first_holds hunused Nat.zero_lt_one hfirst
  refine ⟨buf, s₁, hfirst, (ends_newBuffers _ hholds [1]).mono ?_⟩
  rintro rs s' ⟨-, hrs⟩ hall
  have hmem : some 2 ∈ rs.map bufferSize := by
    rw [hrs]
    decide
  obtain ⟨_ | buf', hr, hm⟩ := List.mem_map.1 hmem
  · cases hm
  · have := hall buf' hr
    rw [hsize, Option.some.inj hm] at this
    exact absurd this (by decide)

end Plibsys
