/-
  Opening a shared memory buffer (`p_shm_buffer_new`), over any implementation of `PShm`.
-/
import Plibsys.Ipc.System
import Plibsys.Shm.Buffer

namespace Plibsys

open Programs

/-- An implementation of `PShm`. -/
structure ShmInterface where
  Shm : Type
  /-- `p_shm_new` -/
  new : List UInt8 → psize → PShmAccessPerms → SysM (Except PError Shm)
  /-- `p_shm_free` -/
  free : Shm → SysM Unit
  /-- `p_shm_get_size` -/
  size : Shm → psize

/-- A `PShmBuffer` with its `PShm` and the memory of the object. -/
structure ShmBufferHandle (I : ShmInterface) where
  block : ℕ
  shm : I.Shm
  size : psize

variable (I : ShmInterface) (name : List UInt8)

/-- The size that is asked for. -/
def shmBufferSegmentSize (size : psize) : psize := if size ≠ 0 then size + shmBufferDataOffset + 1 else 0

def pShmBufferNew (size : psize) : SysM (Except PError (ShmBufferHandle I)) := do
  match ← I.new name (shmBufferSegmentSize size) .readwrite with
  | .error e => return .error e
  | .ok shm =>
    if I.size shm ≤ shmBufferDataOffset + 1 then
      I.free shm
      return .error ⟨.invalidArgument, 0, "Too small memory segment to hold required data"⟩
    let some ret ← pMalloc0 | do
      I.free shm
      return .error ⟨.noResources, 0, "Failed to allocate memory for shared buffer"⟩
    return .ok ⟨ret, shm, I.size shm - shmBufferDataOffset⟩

/-- Buffers of the same name, one after the other. -/
def newBuffers : List psize → SysM (List (Except PError (ShmBufferHandle I)))
  | [] => return []
  | size :: sizes => do
    let r ← pShmBufferNew I name size
    let rs ← newBuffers sizes
    return r :: rs

/-! ## A segment that exists -/

open Prog

/-- The size that `p_shm_new` gives a handle of a segment of `n` bytes. -/
def clampSize (n size : psize) : psize := if n > size ∧ size ≠ 0 then size else n

/-- What an implementation does with a name that has a segment of `n` bytes.

    `lent` is what a handle holds of the system that must not be removed with it. -/
structure SegmentSpec where
  /-- the name has a segment of that many bytes -/
  holds : psize → SysState → Prop
  /-- the handle can be released without the segment -/
  lent : I.Shm → SysState → Prop
  heap : ∀ {n s} heap, holds n s → holds n { s with heap := heap }
  new : ∀ {n s} size perms, holds n s → Ends sysCall (I.new name size perms) s fun r s' =>
    holds n s' ∧ ∃ shm, r = .ok shm ∧ lent shm s' ∧ I.size shm = clampSize n size
  free : ∀ {n s shm}, holds n s → lent shm s → Ends sysCall (I.free shm) s fun _ s' => holds n s'

/-- The size of the buffer that is opened over a segment of `n` bytes. -/
def openedSize (n size : psize) : Option psize :=
  if clampSize n (shmBufferSegmentSize size) ≤ shmBufferDataOffset + 1 then none
  else some (clampSize n (shmBufferSegmentSize size) - shmBufferDataOffset)

/-- The size of the buffer, if there is one. -/
def bufferSize {I : ShmInterface} (r : Except PError (ShmBufferHandle I)) : Option psize :=
  match r with
  | .ok buf => some buf.size
  | .error _ => none

variable {I name} (spec : SegmentSpec I name) {n : psize} {s : SysState}

/-- A buffer over a segment that exists. -/
theorem ends_pShmBufferNew (h : spec.holds n s) (size : psize) :
    Ends sysCall (pShmBufferNew I name size) s fun r s' =>
      spec.holds n s' ∧ bufferSize r = openedSize n size := by
  refine (spec.new _ _ h).bind ?_
  rintro _ s₁ ⟨h₁, shm, rfl, hlent, hsize⟩
  dsimp only
  rw [openedSize, hsize]
  split
  · exact (spec.free h₁ hlent).bind fun _ s₂ h₂ => Ends.pure ⟨h₂, rfl⟩
  · exact Ends.bind_of (exec_pMalloc0 s₁) (Ends.pure ⟨spec.heap _ h₁, rfl⟩)

/-- Buffers over a segment that exists. -/
theorem ends_newBuffers (h : spec.holds n s) (sizes : List psize) :
    Ends sysCall (newBuffers I name sizes) s fun rs s' =>
      spec.holds n s' ∧ rs.map bufferSize = sizes.map (openedSize n) := by
  induction sizes generalizing s with
  | nil => exact Ends.pure ⟨h, rfl⟩
  | cons size sizes ih =>
    refine (ends_pShmBufferNew spec h size).bind ?_
    rintro r s₁ ⟨h₁, hr⟩
    refine (ih h₁).bind ?_
    rintro rs s₂ ⟨h₂, hrs⟩
    refine Ends.pure ⟨h₂, ?_⟩
    rw [List.map_cons, List.map_cons, hr, hrs]

end Plibsys
