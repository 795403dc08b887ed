/-
  The shared memory buffer, one access to the segment at a time.

  `p_shm_lock` and `p_shm_unlock` are `sem_wait` and `sem_post` on the semaphore of the segment, which is
  created with the value 1.  A process that waits in `sem_wait` may be interrupted, and waits again.  The
  arguments are checked before the lock is taken; the calls here have passed these checks.
-/
import Plibsys.Lib.Critical
import Plibsys.Shm.BufferRuns
import Plibsys.Shm.LongCopies

namespace Plibsys

open Critical Interleaving Looping Programs

deriving instance DecidableEq for BufferResult

/-- An access to the segment: to one of the positions, or to one byte. -/
inductive SegmentAccess where
  | getReadPos
  | getWritePos
  | setReadPos (pos : psize)
  | setWritePos (pos : psize)
  | getByte (i : ℕ)
  | setByte (i : ℕ) (byte : UInt8)

abbrev SegmentAccess.Reply : SegmentAccess → Type
  | .getReadPos | .getWritePos => psize
  | .getByte _ => UInt8
  | .setReadPos _ | .setWritePos _ | .setByte _ _ => Unit

def segmentAccess : (c : SegmentAccess) → Segment → c.Reply × Segment
  | .getReadPos, s => (s.read_pos, s)
  | .getWritePos, s => (s.write_pos, s)
  | .setReadPos pos, s => ((), { s with read_pos := pos })
  | .setWritePos pos, s => ((), { s with write_pos := pos })
  | .getByte i, s => (s.data i, s)
  | .setByte i byte, s => ((), { s with data := Function.update s.data i byte })

/-- What a call returns, and the bytes that it has stored in the memory of its caller. -/
abbrev BufferReturn := BufferResult × List UInt8

abbrev SegmentProg := Prog SegmentAccess SegmentAccess.Reply

namespace SegmentSteps

def perform (c : SegmentAccess) : SegmentProg c.Reply := Prog.perform c

/-- `pp_shm_buffer_get_free_space` and `pp_shm_buffer_get_used_space` read the two positions. -/
def getSpace (space : PShmBuffer → Segment → psize) (buf : PShmBuffer) : SegmentProg psize := do
  let read_pos ← perform .getReadPos
  let write_pos ← perform .getWritePos
  return space buf ⟨read_pos, write_pos, fun _ => 0⟩

/-- The copy loop of `p_shm_buffer_read`, with the memory of the caller. -/
def copyOut (buf : PShmBuffer) (read_pos to_copy : psize) (storage : ppointer) :
    ℕ → puint → (ppointer → UInt8) → SegmentProg (ppointer → UInt8)
  | 0, _, _ => .stuck
  | n + 1, i, user =>
    if i.toUInt64 < to_copy then do
      let byte ← perform (.getByte ((read_pos + i.toUInt64) % buf.size).toNat)
      copyOut buf read_pos to_copy storage n (i + 1) (Function.update user (storage + i.toNat) byte)
    else
      return user

/-- The copy loop of `p_shm_buffer_write`. -/
def copyIn (buf : PShmBuffer) (write_pos len : psize) (user : ppointer → UInt8) (data : ppointer) :
    ℕ → puint → SegmentProg Unit
  | 0, _ => .stuck
  | n + 1, i =>
    if i.toUInt64 < len then do
      perform (.setByte ((write_pos + i.toUInt64) % buf.size).toNat (user (data + i.toNat)))
      copyIn buf write_pos len user data n (i + 1)
    else
      return ()

/-- `memset (addr, 0, size)`, the two positions first. -/
def memset (size : psize) : SegmentProg Unit := do
  perform (.setReadPos 0)
  perform (.setWritePos 0)
  zero (size.toNat - shmBufferDataOffset.toNat)
where
  zero : ℕ → SegmentProg Unit
    | 0 => return ()
    | n + 1 => do
      zero n
      perform (.setByte n 0)

section
variable (fuel : ℕ) (buf : PShmBuffer) (user : ppointer → UInt8)

/-- `p_shm_buffer_read` between `p_shm_lock` and `p_shm_unlock`. -/
def pShmBufferRead (storage : ppointer) (len : psize) : SegmentProg BufferReturn := do
  let read_pos ← perform .getReadPos
  let write_pos ← perform .getWritePos
  if read_pos = write_pos then
    return (.read (.ok 0), [])
  let data_aval ← getSpace ppShmBufferGetUsedSpace buf
  let to_copy := if data_aval ≤ len then data_aval else len
  let user ← copyOut buf read_pos to_copy storage fuel 0 user
  perform (.setReadPos ((read_pos + to_copy) % buf.size))
  let ret := to_copy.toUInt32.toInt32
  return (.read (.ok ret), transferred user storage (.ok ret.toInt))

/-- `p_shm_buffer_write` between `p_shm_lock` and `p_shm_unlock`. -/
def pShmBufferWrite (data : ppointer) (len : psize) : SegmentProg BufferReturn := do
  -- `read_pos` is read, and not used
  let _ ← perform .getReadPos
  let write_pos ← perform .getWritePos
  let space ← getSpace ppShmBufferGetFreeSpace buf
  if space < len then
    return (.write (.ok 0), [])
  copyIn buf write_pos len user data fuel 0
  perform (.setWritePos ((write_pos + len) % buf.size))
  return (.write (.ok len.toInt64), [])

def pShmBufferGetSpace (space : PShmBuffer → Segment → psize) : SegmentProg BufferReturn := do
  let space ← getSpace space buf
  return (.space (.ok space.toInt64), [])

def pShmBufferClear : SegmentProg BufferReturn := do
  memset buf.shm.size
  return (.cleared, [])

def bufferCall : BufferCall → SegmentProg BufferReturn
  | .read buf user storage len => pShmBufferRead fuel buf user storage len
  | .write buf user data len => pShmBufferWrite fuel buf user data len
  | .clear buf => pShmBufferClear buf
  | .getFreeSpace buf => pShmBufferGetSpace buf ppShmBufferGetFreeSpace
  | .getUsedSpace buf => pShmBufferGetSpace buf ppShmBufferGetUsedSpace

end

end SegmentSteps

section
variable {n fuel : ℕ} {buf : PShmBuffer} {s : Segment} {user : ppointer → UInt8} {i : puint}

namespace SegmentSteps

theorem exec_perform_bind {α : Type} (c : SegmentAccess) (f : c.Reply → SegmentProg α) :
    (perform c >>= f).exec segmentAccess s = (f (segmentAccess c s).1).exec segmentAccess
    (segmentAccess c s).2 := rfl

theorem exec_getSpace_bind {α : Type} {space : PShmBuffer → Segment → psize}
    (hspace : space buf ⟨s.read_pos, s.write_pos, fun _ => 0⟩ = space buf s) (f : psize → SegmentProg α) :
    (getSpace space buf >>= f).exec segmentAccess s = (f (space buf s)).exec segmentAccess s := by
  rw [← hspace]
  rfl

/-- The copy loop of a read leaves the segment alone. -/
theorem exec_copyOut (n : ℕ) (buf : PShmBuffer) (s : Segment) (user : ppointer → UInt8) (i : puint)
    (read_pos to_copy : psize) (storage : ppointer) :
    (copyOut buf read_pos to_copy storage n i user).exec segmentAccess s =
        ((loop (copyOutStep buf read_pos to_copy storage) n i).run ⟨s, user⟩).map (fun r => (r.2.user, s)) ∧
      ∀ r ∈ (loop (copyOutStep buf read_pos to_copy storage) n i).run ⟨s, user⟩, r.2.segment = s := by
  induction n generalizing i user with
  | zero => exact ⟨rfl, fun r hr => by cases hr⟩
  | succ n ih =>
    by_cases hi : i.toUInt64 < to_copy
    · have hnext : (copyOutStep buf read_pos to_copy storage i).run ⟨s, user⟩ = some (.next (i + 1), ⟨s,
          Function.update user (storage + i.toNat) (s.data ((read_pos + i.toUInt64) % buf.size).toNat)⟩) :=
        if_pos hi
      rw [copyOut, if_pos hi, exec_perform_bind, loop_next hnext]
      exact ih ..
    · have hdone : (copyOutStep buf read_pos to_copy storage i).run ⟨s, user⟩ = some (.done (), ⟨s, user⟩) :=
        if_neg hi
      rw [copyOut, if_neg hi, loop_done hdone]
      exact ⟨rfl, fun r hr => by cases hr; rfl⟩

theorem exec_copyIn (n : ℕ) (buf : PShmBuffer) (s : Segment) (user : ppointer → UInt8) (i : puint)
    (write_pos len : psize) (data : ppointer) :
    (copyIn buf write_pos len user data n i).exec segmentAccess s =
      ((loop (copyInStep buf write_pos len data) n i).run ⟨s, user⟩).map fun r => ((), r.2.segment) := by
  induction n generalizing i s with
  | zero => rfl
  | succ n ih =>
    by_cases hi : i.toUInt64 < len
    · have hnext : (copyInStep buf write_pos len data i).run ⟨s, user⟩ = some (.next (i + 1), ⟨{ s with
          data := Function.update s.data ((write_pos + i.toUInt64) % buf.size).toNat (user (data + i.toNat)) },
          user⟩) := if_pos hi
      rw [copyIn, if_pos hi, exec_perform_bind, loop_next hnext]
      exact ih ..
    · have hdone : (copyInStep buf write_pos len data i).run ⟨s, user⟩ = some (.done (), ⟨s, user⟩) := if_neg hi
      rw [copyIn, if_neg hi, loop_done hdone]
      rfl

theorem exec_zero (n : ℕ) (s : Segment) :
    (memset.zero n).exec segmentAccess s = some
    ((), { s with data := fun i => if i < n then 0 else s.data i }) := by
  induction n with
  | zero => rfl
  | succ n ih =>
    rw [memset.zero, Prog.exec_bind_of ih]
    have hdata : Function.update (fun i => if i < n then 0 else s.data i) n 0 =
        fun i => if i < n + 1 then 0 else s.data i := by
      funext i
      rw [Function.update_apply]
      split_ifs <;> first | rfl | omega
    rw [← hdata]
    rfl

end SegmentSteps

end

/-- What a call does to the segment at one moment, with what it returns. -/
def bufferApply (fuel : ℕ) (call : BufferCall) (s : Segment) : Option (BufferReturn × Segment) :=
  (bufferCall fuel call ⟨s, [], []⟩).map fun r => ((r.1, r.2.read), r.2.segment)

/-- The arguments pass the checks that are made before the lock is taken. -/
def BufferCall.Checked : BufferCall → Prop
  | .read _ _ p len | .write _ _ p len => p ≠ NULL ∧ len ≠ 0
  | .clear _ | .getFreeSpace _ | .getUsedSpace _ => True

section
variable {fuel : ℕ} {buf : PShmBuffer} {s : Segment} {user : ppointer → UInt8}

theorem exec_clear :
    (SegmentSteps.pShmBufferClear buf).exec segmentAccess s = bufferApply fuel (.clear buf) s := by
  have hexec : (SegmentSteps.memset buf.shm.size).exec segmentAccess s =
      some ((), ⟨0, 0, fun i => if i < buf.shm.size.toNat - shmBufferDataOffset.toNat then 0 else s.data i⟩) := by
    rw [SegmentSteps.memset, SegmentSteps.exec_perform_bind, SegmentSteps.exec_perform_bind]
    exact SegmentSteps.exec_zero _ _
  rw [SegmentSteps.pShmBufferClear, Prog.exec_bind_of hexec]
  simp only [Nat.lt_sub_iff_add_lt]
  rfl

theorem bufferApply_read {storage : ppointer} {len : psize} :
    bufferApply fuel (.read buf user storage len) s =
      ((pShmBufferRead fuel .success (some buf) storage len).run.run ⟨s, user⟩).map fun r =>
        ((.read r.1, transferred r.2.user storage (r.1.map Int32.toInt)), r.2.segment) := by
  rw [bufferApply, bufferCall]
  rcases (pShmBufferRead fuel .success (some buf) storage len).run.run ⟨s, user⟩ with _ | r <;> rfl

theorem bufferApply_write {data : ppointer} {len : psize} :
    bufferApply fuel (.write buf user data len) s =
      ((pShmBufferWrite fuel .success (some buf) data len).run.run ⟨s, user⟩).map fun r =>
        ((.write r.1, []), r.2.segment) := by
  rw [bufferApply, bufferCall]
  rcases (pShmBufferWrite fuel .success (some buf) data len).run.run ⟨s, user⟩ with _ | r <;> rfl

theorem exec_read {storage : ppointer} {len : psize} (hstorage : storage ≠ NULL) (hlen : len ≠ 0) :
    (SegmentSteps.pShmBufferRead fuel buf user storage len).exec segmentAccess s =
      bufferApply fuel (.read buf user storage len) s := by
  rw [SegmentSteps.pShmBufferRead, SegmentSteps.exec_perform_bind, SegmentSteps.exec_perform_bind,
    bufferApply_read,
    pShmBufferRead_run fuel hstorage hlen]
  by_cases hpos : s.read_pos = s.write_pos
  · simp only [segmentAccess, hpos, ↓reduceIte]
    rfl
  simp only [segmentAccess, hpos, ↓reduceIte]
  rw [SegmentSteps.exec_getSpace_bind (by rfl)]
  set to_copy := if ppShmBufferGetUsedSpace buf s ≤ len then ppShmBufferGetUsedSpace buf s else len
  obtain ⟨hexec, hsegment⟩ := SegmentSteps.exec_copyOut fuel buf s user 0 s.read_pos to_copy storage
  rcases hloop : (copyOut fuel buf s.read_pos to_copy storage).run ⟨s, user⟩ with _ | ⟨⟨⟩, m⟩ <;>
    have hloop' := hloop <;> rw [copyOut] at hloop' <;> rw [hloop'] at hexec hsegment
  · rw [Prog.exec_bind, hexec]
    exact congrArg (Option.map _) (lift_bind_none hloop _).symm
  · obtain ⟨s', user'⟩ := m
    obtain rfl : s' = s := hsegment _ rfl
    have hrest := lift_bind hloop fun _ => (do
      setReadPos ((s'.read_pos + to_copy) % buf.size)
      return to_copy.toUInt32.toInt32 : ShmM pint)
    rw [Prog.exec_bind_of hexec, hrest]
    rfl

theorem exec_write {data : ppointer} {len : psize} (hdata : data ≠ NULL) (hlen : len ≠ 0) :
    (SegmentSteps.pShmBufferWrite fuel buf user data len).exec segmentAccess s =
      bufferApply fuel (.write buf user data len) s := by
  rw [SegmentSteps.pShmBufferWrite, SegmentSteps.exec_perform_bind, SegmentSteps.exec_perform_bind,
    SegmentSteps.exec_getSpace_bind (by rfl), bufferApply_write,
    pShmBufferWrite_run fuel hdata hlen]
  by_cases hspace : ppShmBufferGetFreeSpace buf s < len
  · simp only [segmentAccess, hspace, ↓reduceIte]
    rfl
  simp only [segmentAccess, hspace, ↓reduceIte]
  have hexec := SegmentSteps.exec_copyIn fuel buf s user 0 s.write_pos len data
  rcases hloop : (copyIn fuel buf s.write_pos len data).run ⟨s, user⟩ with _ | ⟨⟨⟩, m⟩ <;>
    have hloop' := hloop <;> rw [copyIn] at hloop' <;> rw [hloop'] at hexec
  · rw [Prog.exec_bind, hexec]
    exact congrArg (Option.map _) (lift_bind_none hloop _).symm
  · have hrest := lift_bind hloop fun _ => (do
      setWritePos ((s.write_pos + len) % buf.size)
      return len.toInt64 : ShmM pssize)
    rw [Prog.exec_bind_of hexec, hrest]
    rfl

/-- **Alone, a call made of single accesses does what the call does at one moment.** -/
theorem exec_bufferCall (fuel : ℕ) {call : BufferCall} (hcall : call.Checked) (s : Segment) :
    (SegmentSteps.bufferCall fuel call).exec segmentAccess s = bufferApply fuel call s := by
  cases call with
  | read buf user storage len => exact exec_read hcall.1 hcall.2
  | write buf user data len => exact exec_write hcall.1 hcall.2
  | clear buf => exact exec_clear
  | getFreeSpace buf => rfl
  | getUsedSpace buf => rfl

end

/-! ## Processes -/

/-- The semaphore of the segment. -/
def semaphore : Lock ℕ where
  free := 1
  taken := 0
  tryLock value := if 0 < value then some (value - 1) else none
  unlock value := value + 1
  tryLock_free := rfl
  tryLock_taken := rfl
  unlock_taken := rfl

/-- A call with arguments that pass the checks. -/
abbrev CheckedCall := {call : BufferCall // call.Checked}

section
variable {ι : Type} (fuel : ℕ)

/-- A step of a process: `sem_wait`, one access to the segment, or `sem_post`. -/
def bufferStep : ι → Move CheckedCall BufferReturn → Guarded ℕ Segment →
    Place CheckedCall BufferReturn SegmentAccess SegmentAccess.Reply →
    Option (Guarded ℕ Segment × Place CheckedCall BufferReturn SegmentAccess SegmentAccess.Reply) :=
  step semaphore segmentAccess (fun call => SegmentSteps.bufferCall fuel call.1) fun _ => none

/-- A step of a process whose calls happen at one moment. -/
def bufferAtomicStep : ι → Move CheckedCall BufferReturn → Segment → Outline CheckedCall BufferReturn →
    Option (Segment × Outline CheckedCall BufferReturn) :=
  atomicStep (fun call => bufferApply fuel call.1) fun _ => none

variable {fuel} [DecidableEq ι] {s : Segment} {xs : List (ι × Move CheckedCall BufferReturn)}
  {c : Config ι (Guarded ℕ Segment) (Place CheckedCall BufferReturn SegmentAccess SegmentAccess.Reply)}

/-- **Calls on a shared buffer are atomic.**  However the single accesses of any number of processes
    interleave, the calls, the returned values and the bytes that are read are those of calls that happen at
    one moment each; no two processes are ever at the segment together. -/
theorem pShmBuffer_linearizable (hrun : run (bufferStep fuel) (start semaphore s) xs = some c) :
    (∃ ys d, run (bufferAtomicStep fuel) (atomicStart s) ys = some d ∧
      history Move.event ys = history Move.event xs ∧ (∀ i, d.loc i = (c.loc i).outline) ∧
      ((∀ i, ¬ (c.loc i).Inside) → c.shared.value = d.shared)) ∧
      ∀ i j, (c.loc i).Inside → (c.loc j).Inside → i = j := by
  obtain ⟨ys, d, hys, hhistory, hfollows⟩ := linearizable hrun
  have hstep : bufferAtomicStep (ι := ι) fuel =
      atomicStep (fun call => (SegmentSteps.bufferCall fuel call.1).exec segmentAccess) fun _ => none := by
    unfold bufferAtomicStep
    congr
    funext call s
    exact (exec_bufferCall fuel call.2 s).symm
  constructor
  · refine ⟨ys, d, ?_, hhistory, hfollows.outline, hfollows.guards.quiet⟩
    rw [hstep]
    exact hys
  · intro i j hi hj
    exact hfollows.guards.exclusive hi hj

/-- A byte is written while another process waits to read it. -/
theorem pShmBuffer_linearizable_byte :
    let buf : PShmBuffer := ⟨⟨18⟩, 2⟩
    let write : CheckedCall := ⟨.write buf (fun _ => 7) 1 1, by decide, by decide⟩
    let read : CheckedCall := ⟨.read buf (fun _ => 0) 1 1, by decide, by decide⟩
    let xs : List (Fin 2 × Move CheckedCall BufferReturn) :=
      [(0, .call write), (1, .call read), (0, .work), (0, .work), (1, .work), (0, .work), (0, .work), (0, .work),
        (0, .work), (0, .work), (1, .work), (0, .work), (1, .work), (1, .work), (1, .work), (1, .work), (1, .work),
        (1, .work), (1, .work), (1, .work), (1, .ret (.read (.ok 1), [7]))]
    ∃ ys d, run (bufferAtomicStep 2) (atomicStart ⟨0, 0, fun _ => 0⟩) ys = some d ∧
      history Move.event ys = history Move.event xs := by
  intro buf write read xs
  have hsome : (run (bufferStep 2) (start semaphore ⟨0, 0, fun _ => 0⟩) xs).isSome = true := by decide +kernel
  obtain ⟨c, hrun⟩ := Option.isSome_iff_exists.1 hsome
  obtain ⟨⟨ys, d, hys, hhistory, -⟩, -⟩ := pShmBuffer_linearizable hrun
  exact ⟨ys, d, hys, hhistory⟩

end

end Plibsys
