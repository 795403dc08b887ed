/-
  The shared memory buffer (`pshmbuffer.c`).

  A call works on the shared segment and on the memory of the caller.  An error that it
  throws stands for the return value -1 with the error report set.  It fails (`none`) when
  it accesses a segment that is not mapped and when a loop does not end within its bound.
-/
import Plibsys.Types
import Plibsys.Lib.Loop
import Mathlib.Logic.Function.Basic

namespace Plibsys

open Looping

/-- A `PShm`, as far as the buffer looks at it. -/
structure PShm where
  size : psize
  deriving DecidableEq, Repr

structure PShmBuffer where
  shm : PShm
  size : psize
  deriving DecidableEq, Repr

/-- `P_SHM_BUFFER_DATA_OFFSET`. -/
def shmBufferDataOffset : psize := 16

/-- The shared segment: the two positions, and the bytes from `P_SHM_BUFFER_DATA_OFFSET` on. -/
structure Segment where
  read_pos : psize
  write_pos : psize
  data : ℕ → UInt8

/-- The shared segment and the memory of the caller. -/
structure ShmMem where
  segment : Segment
  user : ppointer → UInt8

abbrev ShmM := ExceptT PError (StateT ShmMem Option)

/-- What the functions of `PShm` return during a call: whether there is an address, and the
    results of `p_shm_lock` and `p_shm_unlock`. -/
structure ShmResults where
  address : Bool
  lock : Except PError Unit
  unlock : Except PError Unit

/-- Nothing goes wrong. -/
def ShmResults.success : ShmResults := ⟨true, .ok (), .ok ()⟩

def ppShmBufferGetFreeSpace (buf : PShmBuffer) (s : Segment) : psize :=
  if s.write_pos < s.read_pos then
    s.read_pos - s.write_pos
  else if s.write_pos > s.read_pos then
    buf.size - (s.write_pos - s.read_pos) - 1
  else
    buf.size - 1

def ppShmBufferGetUsedSpace (buf : PShmBuffer) (s : Segment) : psize :=
  if s.write_pos > s.read_pos then
    s.write_pos - s.read_pos
  else if s.write_pos < s.read_pos then
    buf.size - (s.read_pos - s.write_pos)
  else
    0

def invalidArgument (message : String) : PError := ⟨.invalidArgument, 0, message⟩

section
variable (fuel : ℕ) (shm : ShmResults)

/-- The segment as it is read after `p_shm_get_address`. -/
def getSegment : StateT ShmMem Option Segment := fun m =>
  if shm.address then some (m.segment, m) else none

def setReadPos (pos : psize) : StateT ShmMem Option Unit := fun m =>
  some ((), { m with segment := { m.segment with read_pos := pos } })

def setWritePos (pos : psize) : StateT ShmMem Option Unit := fun m =>
  some ((), { m with segment := { m.segment with write_pos := pos } })

/-- `p_shm_lock` or `p_shm_unlock` with this result. -/
def callShm (result : Except PError Unit) : ShmM Unit := ExceptT.mk (pure result)

/-- One round of the copy loop of `p_shm_buffer_read`; its state is the counter `i`. -/
def copyOutStep (buf : PShmBuffer) (read_pos to_copy : psize) (storage : ppointer) (i : puint) :
    StateT ShmMem Option (Iter puint Unit) := fun m =>
  if i.toUInt64 < to_copy then
    let byte := m.segment.data ((read_pos + i.toUInt64) % buf.size).toNat
    some (.next (i + 1), { m with user := Function.update m.user (storage + i.toNat) byte })
  else
    some (.done (), m)

/-- One round of the copy loop of `p_shm_buffer_write`; its state is the counter `i`. -/
def copyInStep (buf : PShmBuffer) (write_pos len : psize) (data : ppointer) (i : puint) :
    StateT ShmMem Option (Iter puint Unit) := fun m =>
  if i.toUInt64 < len then
    let pos := ((write_pos + i.toUInt64) % buf.size).toNat
    some (.next (i + 1), { m with segment := { m.segment with
                             data := Function.update m.segment.data pos (m.user (data + i.toNat)) } })
  else
    some (.done (), m)

def copyOut (buf : PShmBuffer) (read_pos to_copy : psize) (storage : ppointer) : StateT ShmMem Option Unit :=
  loop (copyOutStep buf read_pos to_copy storage) fuel 0

def copyIn (buf : PShmBuffer) (write_pos len : psize) (data : ppointer) : StateT ShmMem Option Unit :=
  loop (copyInStep buf write_pos len data) fuel 0

def pShmBufferRead (buf : Option PShmBuffer) (storage : ppointer) (len : psize) : ShmM pint := do
  let some buf := buf | throw (invalidArgument "Invalid input argument")
  if storage = NULL ∨ len = 0 then
    throw (invalidArgument "Invalid input argument")
  if ¬ shm.address then
    throw (invalidArgument "Unable to get shared memory address")
  callShm shm.lock
  let s ← getSegment shm
  if s.read_pos = s.write_pos then
    callShm shm.unlock
    return 0
  let data_aval := ppShmBufferGetUsedSpace buf s
  let to_copy := if data_aval ≤ len then data_aval else len
  copyOut fuel buf s.read_pos to_copy storage
  setReadPos ((s.read_pos + to_copy) % buf.size)
  callShm shm.unlock
  return to_copy.toUInt32.toInt32

def pShmBufferWrite (buf : Option PShmBuffer) (data : ppointer) (len : psize) : ShmM pssize := do
  let some buf := buf | throw (invalidArgument "Invalid input argument")
  if data = NULL ∨ len = 0 then
    throw (invalidArgument "Invalid input argument")
  if ¬ shm.address then
    throw (invalidArgument "Unable to get shared memory address")
  callShm shm.lock
  let s ← getSegment shm
  if ppShmBufferGetFreeSpace buf s < len then
    callShm shm.unlock
    return 0
  copyIn fuel buf s.write_pos len data
  setWritePos ((s.write_pos + len) % buf.size)
  callShm shm.unlock
  return len.toInt64

/-- The common text of `p_shm_buffer_get_free_space` and `p_shm_buffer_get_used_space`. -/
def getSpace (space : PShmBuffer → Segment → psize) (buf : Option PShmBuffer) : ShmM pssize := do
  let some buf := buf | throw (invalidArgument "Invalid input argument")
  callShm shm.lock
  let s ← getSegment shm
  let space := space buf s
  callShm shm.unlock
  return space.toInt64

def pShmBufferGetFreeSpace : Option PShmBuffer → ShmM pssize := getSpace shm ppShmBufferGetFreeSpace

def pShmBufferGetUsedSpace : Option PShmBuffer → ShmM pssize := getSpace shm ppShmBufferGetUsedSpace

/-- `memset (addr, 0, size)`, for a size beyond the two positions. -/
def memset (size : psize) : StateT ShmMem Option Unit := fun m =>
  let data i := if i + shmBufferDataOffset.toNat < size.toNat then 0 else m.segment.data i
  some ((), { m with segment := { read_pos := 0, write_pos := 0, data := data } })

def pShmBufferClear (buf : Option PShmBuffer) : StateT ShmMem Option Unit := do
  let some buf := buf | return
  if ¬ shm.address then return
  let .ok () := shm.lock | return
  memset buf.shm.size

end

end Plibsys
