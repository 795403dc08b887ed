/-
  Failed constructors.

  A constructor returns `NULL` when a step that it needs has failed, and has then released what it
  acquired.  Semaphores and segments do so under every schedule of failures.  A lock is returned
  although one of its parts could not be created, and a buffer that cannot be made leaves pages
  mapped when its segment is larger than the size that was asked for.
-/
import Plibsys.Ipc.CleanUp

namespace Plibsys.Faults

open Programs Resources SysState Registries

/-! ## Buffers -/

def bufferParts {pf : Platform} {fuel : ℕ} (buf : ShmBufferHandle (Posix.shmInterface pf fuel)) :
    Multiset Resource :=
  {.block buf.block} + shmParts buf.shm

/-- The size of the segment under a buffer. -/
def bufferSegment (pf : Platform) (shms : Registry Path psize) (name : List UInt8) (size : psize) : psize :=
  segmentSize shms (Posix.shmKey pf name) (shmBufferSegmentSize size)

/-- The size of the handle of that segment. -/
def bufferHandle (pf : Platform) (shms : Registry Path psize) (name : List UInt8) (size : psize) : psize :=
  clampSize (bufferSegment pf shms name size) (shmBufferSegmentSize size)

/-- What `p_shm_buffer_new` does once it has a segment. -/
def bufferOver (pf : Platform) (fuel : ℕ) (shm : Posix.PShm) :
    ResM (Except PError (ShmBufferHandle (Posix.shmInterface pf fuel))) := do
  access shm.block
  let _ ← check (shmBufferDataOffset + 1 < shm.size)
  if shm.size ≤ shmBufferDataOffset + 1 then
    pShmFree shm
    return .error ⟨.invalidArgument, 0, "Too small memory segment to hold required data"⟩
  let some ret ← pMalloc0 | do
    pShmFree shm
    return .error ⟨.noResources, 0, "Failed to allocate memory for shared buffer"⟩
  access ret
  access shm.block
  return .ok ⟨ret, shm, shm.size - shmBufferDataOffset⟩

/-- What `p_rwlock_new` does once it has memory. -/
def lockOver (ret : ℕ) : ResM (Option PRWLock) := do
  let mutex ← mutexNew
  access ret
  if mutex = none then
    pFree ret
  let read_cv ← condNew
  access ret
  if read_cv = none then
    access ret
    pMutexFree mutex
    pFree ret
  let write_cv ← condNew
  access ret
  if write_cv = none then
    access ret
    pCondVariableFree read_cv
    access ret
    pMutexFree mutex
    pFree ret
  return some ⟨ret, mutex, read_cv, write_cv⟩

open Prog

variable {pf : Platform} {fuel : ℕ} {X Z : Multiset Resource} {fl : Bool} {m : Machine} {shm : Posix.PShm}
  {name : List UInt8} {size : psize}

theorem pShmBufferNew_eq : pShmBufferNew pf fuel name size =
    pShmNew pf fuel name (shmBufferSegmentSize size) .readwrite >>= fun r => match r with
      | .error e => pure (.error e)
      | .ok shm => bufferOver pf fuel shm := rfl

/-- An allocation fails when it is made to fail. -/
theorem ends_pMalloc0_of {α : Type} {R : α → Machine → Prop} {f : Option ℕ → ResM α} (h : Held fuel X fl m)
    (hnone : ∀ m', m.fault ≠ none → Held fuel X true m' → Ends resCall (f none) m' R)
    (hsome : ∀ b m', m.fault = none → m'.faults = m.faults.tail → Held fuel ({.block b} + X) fl m' →
      Ends resCall (f (some b)) m' R) : Ends resCall (pMalloc0 >>= f) m R := by
  have hafter := h.after (c := .malloc) (Y := X) (J := fun _ _ => True) nofun (zero_add X).symm
    (Multiset.zero_le _)
    (fun _ _ => trivial) (fun _ _ _ => trivial)
  refine Ends.perform ?_
  change Ends resCall (f (m.answer .malloc).1) _ R
  rcases hfault : m.fault with _ | e
  · have hreply : (m.answer .malloc).1 = some m.sys.heap.next := by
      rw [Machine.answer, hfault]
      rfl
    rw [hreply] at hafter ⊢
    refine hsome _ _ hfault rfl ?_
    rw [add_comm]
    simpa [acquired, fails] using hafter
  · have hreply : (m.answer .malloc).1 = none := by
      rw [Machine.answer, hfault]
      rfl
    rw [hreply] at hafter ⊢
    refine hnone _ ?_ ?_
    · rw [hfault]
      exact Option.some_ne_none e
    · simpa [acquired, fails] using hafter

/-- The segment is too small, or memory for the buffer cannot be allocated: the segment is released. -/
theorem ends_bufferOver (h : Held fuel (shmParts shm + X) fl m) :
    Ends resCall (bufferOver pf fuel shm) m fun r m' => match r with
      | .error _ => (shm.size ≤ shmBufferDataOffset + 1 ∨ m.fault ≠ none) ∧ Held fuel X true m'
      | .ok buf => ¬ (shm.size ≤ shmBufferDataOffset + 1 ∨ m.fault ≠ none) ∧
          Held fuel (bufferParts buf + X) fl m' := by
  have hblock := block_mem_shmParts (Z := X) shm
  have hchecked : ∀ ok, Held fuel (shmParts shm + X) (fl || !ok)
      (resCall (.check ok) (resCall (.access shm.block) m).2).2 := by
    intro ok
    have haccess := h.access hblock
    exact ⟨haccess.account, congrArg (· || !ok) haccess.failed, haccess.budget, trivial⟩
  refine Ends.perform (Ends.perform ?_)
  by_cases hsmall : shm.size ≤ shmBufferDataOffset + 1
  · have hfailed := hchecked (decide (shmBufferDataOffset + 1 < shm.size))
    rw [decide_eq_false (UInt64.not_lt.2 hsmall), Bool.not_false, Bool.or_true] at hfailed
    rw [if_pos hsmall, decide_eq_false (UInt64.not_lt.2 hsmall)]
    exact (ends_pShmFree shm hfailed).bind fun _ _ h => Ends.pure ⟨.inl hsmall, h⟩
  · have hlarge := hchecked (decide (shmBufferDataOffset + 1 < shm.size))
    rw [decide_eq_true (UInt64.not_le.1 hsmall), Bool.not_true, Bool.or_false] at hlarge
    rw [if_neg hsmall, decide_eq_true (UInt64.not_le.1 hsmall)]
    refine ends_pMalloc0_of hlarge (fun _ hfault h => ?_) fun ret _ hfault _ h => ?_
    · exact (ends_pShmFree shm h).bind fun _ _ h => Ends.pure ⟨.inr hfault, h⟩
    · refine ends_access h (by simp) fun _ h => ends_access h (Multiset.mem_add.2 (.inr hblock)) fun _ h => ?_
      refine Ends.pure ⟨?_, ?_⟩
      · rintro (hle | hne)
        · exact hsmall hle
        · exact hne hfault
      · rw [bufferParts, add_assoc]
        exact h

/-! ## Locks -/

theorem pRwlockNew_eq : pRwlockNew = pMalloc0 >>= fun r => match r with
    | none => pure none
    | some block => lockOver block := by
  refine congrArg (pMalloc0 >>= ·) (funext fun r => ?_)
  cases r <;> rfl

/-- The `k`-th of the calls that can fail is made to fail. -/
def FailsAt (faults : List (Option Errno)) (k : ℕ) : Prop := faults[k]?.join ≠ none

instance (faults : List (Option Errno)) (k : ℕ) : Decidable (FailsAt faults k) :=
  inferInstanceAs (Decidable (_ ≠ _))

/-- The faults `F` are still to come. -/
structure Facing (fuel : ℕ) (X : Multiset Resource) (fl : Bool) (F : List (Option Errno)) (m : Machine) :
    Prop where
  held : Held fuel X fl m
  faults : m.faults = F

section
variable {α : Type} {R : α → Machine → Prop} {F : List (Option Errno)}

theorem fault_eq (hF : m.faults = F) : m.fault = F.head?.join := by
  rw [Machine.fault, hF]

theorem Facing.access {b : ℕ} {f : Unit → ResM α} (h : Facing fuel X fl F m) (hb : Resource.block b ∈ X)
    (hf : ∀ m', Facing fuel X fl F m' → Ends resCall (f ()) m' R) : Ends resCall (Faults.access b >>= f) m R :=
  Ends.perform (hf _ ⟨h.held.access hb, h.faults⟩)

theorem Facing.create {r : ℕ → Resource} (h : Facing fuel X fl F m) (hF : F.head?.join = none) :
    (m.create r).1 = some m.nextPrim ∧ Facing fuel ({r m.nextPrim} + X) fl F.tail (m.create r).2 := by
  have hfault := (fault_eq h.faults).trans hF
  rw [Machine.create, hfault]
  refine ⟨rfl, ⟨?_, h.held.failed, ?_, trivial⟩, congrArg List.tail h.faults⟩
  · show m.account.acquire _ = _
    rw [h.held.account, add_comm]
    rfl
  · exact Nat.lt_of_le_of_lt (Nat.add_le_add_left (List.tail_sublist _).countP_le _) h.held.budget

theorem Facing.mutexNew {f : Option ℕ → ResM α} (h : Facing fuel X fl F m) (hF : F.head?.join = none)
    (hf : ∀ i m', Facing fuel ({.mutex i} + X) fl F.tail m' → Ends resCall (f (some i)) m' R) :
    Ends resCall (Faults.mutexNew >>= f) m R := by
  obtain ⟨hreply, h'⟩ := h.create (r := .mutex) hF
  refine Ends.perform ?_
  change Ends resCall (f (m.create .mutex).1) (m.create .mutex).2 R
  rw [hreply]
  exact hf _ _ h'

theorem Facing.condNew {f : Option ℕ → ResM α} (h : Facing fuel X fl F m) (hF : F.head?.join = none)
    (hf : ∀ i m', Facing fuel ({.cond i} + X) fl F.tail m' → Ends resCall (f (some i)) m' R) :
    Ends resCall (Faults.condNew >>= f) m R := by
  obtain ⟨hreply, h'⟩ := h.create (r := .cond) hF
  refine Ends.perform ?_
  change Ends resCall (f (m.create .cond).1) (m.create .cond).2 R
  rw [hreply]
  exact hf _ _ h'

/-- A lock whose parts are all created. -/
theorem ends_lockOver {ret : ℕ} (h : Facing fuel {.block ret} fl F m)
    (hF : ¬ (FailsAt F 0 ∨ FailsAt F 1 ∨ FailsAt F 2)) :
    Ends resCall (lockOver ret) m fun r m' => ∃ lock, r = some lock ∧ Held fuel (lockParts lock) fl m' := by
  simp only [FailsAt, ne_eq, not_or, not_not] at hF
  have h0 : F.head?.join = none := by
    rw [List.head?_eq_getElem?]
    exact hF.1
  have h1 : F.tail.head?.join = none := by
    rw [List.head?_eq_getElem?, List.getElem?_tail]
    exact hF.2.1
  have h2 : F.tail.tail.head?.join = none := by
    rw [List.head?_eq_getElem?, List.getElem?_tail, List.getElem?_tail]
    exact hF.2.2
  refine h.mutexNew h0 fun mutex _ h => h.access (by simp) fun _ h => ?_
  refine h.condNew h1 fun read_cv _ h => h.access (by simp) fun _ h => ?_
  refine h.condNew h2 fun write_cv _ h => h.access (by simp) fun _ h => ?_
  have hparts : {.cond write_cv} + ({.cond read_cv} + ({.mutex mutex} + {.block ret})) =
      lockParts ⟨ret, some mutex, some read_cv, some write_cv⟩ := by
    simp only [lockParts, part]
    abel
  exact Ends.pure ⟨_, rfl, hparts ▸ h.held⟩

/-- A lock is returned whether its parts are created or not. -/
theorem exec_lockOver (ret : ℕ) (m : Machine) : ∃ lock m', (lockOver ret).exec resCall m = some (some lock, m') ∧
    (FailsAt m.faults 0 ∨ FailsAt m.faults 1 ∨ FailsAt m.faults 2 → m'.failed = true) := by
  obtain ⟨s, prims, faults, account, failed⟩ := m
  rcases faults with _ | ⟨_ | _, _ | ⟨_ | _, _ | ⟨_ | _, faults⟩⟩⟩ <;>
    exact ⟨_, _, rfl, by simp [FailsAt, resCall, Machine.create, Machine.fault]⟩

end

/-! ## The constructors -/

inductive Constructor where
  | rwlock
  | semaphore (name : List UInt8) (init_val : pint) (mode : PSemaphoreAccessMode)
  | shm (name : List UInt8) (size : psize) (perms : PShmAccessPerms)
  | buffer (name : List UInt8) (size : psize)

/-- The parts of the object that the constructor returns, or `none` for `NULL`. -/
def Constructor.run (pf : Platform) (fuel : ℕ) : Constructor → ResM (Option (Multiset Resource))
  | .rwlock => do
    let r ← pRwlockNew
    return r.map lockParts
  | .semaphore name init_val mode => do
    let r ← pSemaphoreNew pf fuel none name init_val mode
    return r.toOption.map semParts
  | .shm name size perms => do
    let r ← pShmNew pf fuel name size perms
    return r.toOption.map shmParts
  | .buffer name size => do
    let r ← pShmBufferNew pf fuel name size
    return r.toOption.map bufferParts

/-- **What a constructor owes its caller.**  The account is sound: nothing that was not held has been
    released or used. -/
structure CleansUp (r : Option (Multiset Resource)) (m : Machine) : Prop where
  null_iff : r = none ↔ m.failed = true
  sound : m.account.sound = true
  released : r = none → m.account.held = 0
  parts : ∀ P ∈ r, P ≤ m.account.held

theorem CleansUp.failed (h : Held fuel 0 true m) : CleansUp none m := by
  refine ⟨⟨fun _ => h.failed, fun _ => rfl⟩, ?_, fun _ => ?_, nofun⟩
  · rw [h.account]
  · rw [h.account]

theorem CleansUp.made {P : Multiset Resource} (h : Held fuel X false m) (hP : P ≤ X) : CleansUp (some P) m := by
  refine ⟨⟨nofun, fun hfailed => ?_⟩, ?_, nofun, ?_⟩
  · cases h.failed.symm.trans hfailed
  · rw [h.account]
  · rintro _ ⟨⟩
    rw [h.account]
    exact hP

/-- Nothing has been acquired, and no step has failed; which calls are made to fail is given. -/
def Machine.start (s : SysState) (prims : ℕ) (faults : List (Option Errno)) : Machine :=
  ⟨s, prims, faults, .start, false⟩

theorem start_at {s : SysState} (prims : ℕ) {faults : List (Option Errno)}
    (hfuel : interruptions s faults < fuel) :
    At fuel (fun s' => s'.shms = s.shms) 0 false (Machine.start s prims faults) :=
  ⟨rfl, rfl, hfuel, rfl⟩

/-- The constructor does what it owes its caller, in the state `s` and with these failures. -/
def Constructor.Meets (pf : Platform) (c : Constructor) (s : SysState) (faults : List (Option Errno)) : Prop :=
  ∀ prims fuel, interruptions s faults < fuel →
    Ends resCall (c.run pf fuel) (Machine.start s prims faults) CleansUp

/-- The memory of a lock is allocated, and then one of its parts is not created. -/
def PartFails (faults : List (Option Errno)) : Prop :=
  ¬ FailsAt faults 0 ∧ (FailsAt faults 1 ∨ FailsAt faults 2 ∨ FailsAt faults 3)

instance (faults : List (Option Errno)) : Decidable (PartFails faults) := inferInstanceAs (Decidable (_ ∧ _))

variable {s : SysState} {faults : List (Option Errno)}

theorem rwlock_meets_iff : Constructor.rwlock.Meets pf s faults ↔ ¬ PartFails faults := by
  have hend : ∀ prims fuel, interruptions s faults < fuel →
      Ends resCall (Constructor.rwlock.run pf fuel) (Machine.start s prims faults) fun r m' =>
        CleansUp r m' ↔ ¬ PartFails faults := by
    intro prims fuel hfuel
    have h := (start_at prims hfuel).held
    refine Ends.bind (Q := fun r m' => CleansUp (r.map lockParts) m' ↔ ¬ PartFails faults) ?_ fun _ _ h =>
      Ends.pure h
    rw [pRwlockNew_eq]
    refine ends_pMalloc0_of h (fun m' hfault h => ?_) fun ret m' hfault hfaults h => ?_
    · refine Ends.pure (iff_of_true (CleansUp.failed h) fun hpart => hpart.1 ?_)
      rwa [FailsAt, ← List.head?_eq_getElem?]
    · have h0 : ¬ FailsAt faults 0 := by
        rw [FailsAt, ← List.head?_eq_getElem?]
        exact not_not.2 hfault
      have hnext : ∀ k, FailsAt m'.faults k ↔ FailsAt faults (k + 1) := fun k => by
        rw [FailsAt, hfaults, List.getElem?_tail]
        rfl
      by_cases hpart : FailsAt m'.faults 0 ∨ FailsAt m'.faults 1 ∨ FailsAt m'.faults 2
      · obtain ⟨lock, m'', hexec, hfailed⟩ := exec_lockOver ret m'
        refine ⟨some lock, m'', hexec, iff_of_false (fun hclean => ?_) (not_not.2 ⟨h0, ?_⟩)⟩
        · cases hclean.null_iff.2 (hfailed hpart)
        · rwa [hnext, hnext, hnext] at hpart
      · refine (ends_lockOver ⟨h, rfl⟩ hpart).mono ?_
        rintro _ m'' ⟨lock, rfl, h⟩
        refine iff_of_true (CleansUp.made h (le_refl _)) fun hp => hpart ?_
        rw [hnext, hnext, hnext]
        exact hp.2
  constructor
  · intro hmeets
    obtain ⟨_, _, -, hclean, hiff⟩ := (hmeets 0 _ (Nat.lt_succ_self _)).and (hend 0 _ (Nat.lt_succ_self _))
    exact hiff.1 hclean
  · exact fun hpart prims fuel hfuel => (hend prims fuel hfuel).mono fun _ _ hiff => hiff.2 hpart

theorem semaphore_meets (v : pint) (mode : PSemaphoreAccessMode) :
    (Constructor.semaphore name v mode).Meets pf s faults := by
  intro prims fuel hfuel
  refine (ends_pSemaphoreNew pf none name v mode nofun (start_at prims hfuel).held).bind ?_
  rintro (e | sem) _ h
  · exact Ends.pure (CleansUp.failed h)
  · exact Ends.pure (CleansUp.made h (Multiset.le_add_right _ _))

theorem shm_meets (perms : PShmAccessPerms) : (Constructor.shm name size perms).Meets pf s faults := by
  intro prims fuel hfuel
  refine (ends_pShmNew pf name size perms (start_at prims hfuel)).bind ?_
  rintro (e | shm) _ h
  · exact Ends.pure (CleansUp.failed h)
  · obtain ⟨addr, -, h⟩ := h
    exact Ends.pure (CleansUp.made h (Multiset.le_add_right _ _))

/-! ## Buffers that are not made -/

/-- The handle of the segment describes fewer pages than the segment has. -/
def Shrinks (pf : Platform) (s : SysState) (name : List UInt8) (size : psize) : Prop :=
  pages (bufferHandle pf s.shms name size) < pages (bufferSegment pf s.shms name size)

instance : Decidable (Shrinks pf s name size) := inferInstanceAs (Decidable (_ < _))

/-- The segment is opened, and is then too small, or memory for the buffer cannot be allocated. -/
def FailsLate (pf : Platform) (fuel : ℕ) (m : Machine) (name : List UInt8) (size : psize) : Prop :=
  ∃ shm m', (pShmNew pf fuel name (shmBufferSegmentSize size) .readwrite).exec resCall m = some (.ok shm, m') ∧
    (shm.size ≤ shmBufferDataOffset + 1 ∨ m'.fault ≠ none)

theorem ends_buffer {prims : ℕ} (hfuel : interruptions s faults < fuel) :
    Ends resCall ((Constructor.buffer name size).run pf fuel) (Machine.start s prims faults) fun r m' =>
      CleansUp r m' ↔ ¬ (Shrinks pf s name size ∧ FailsLate pf fuel (Machine.start s prims faults) name size) := by
  obtain ⟨r, m', hexec, h⟩ := ends_pShmNew pf name (shmBufferSegmentSize size) .readwrite (start_at prims hfuel)
  refine Ends.bind (Q := fun r m' => CleansUp (r.toOption.map bufferParts) m' ↔
    ¬ (Shrinks pf s name size ∧ FailsLate pf fuel (Machine.start s prims faults) name size)) ?_ fun _ _ h =>
      Ends.pure h
  rw [pShmBufferNew_eq]
  refine Ends.bind_of hexec ?_
  rcases r with e | shm
  · refine Ends.pure (iff_of_true (CleansUp.failed h) ?_)
    rintro ⟨-, shm, m'', hexec', -⟩
    cases hexec.symm.trans hexec'
  · obtain ⟨addr, hsize, h⟩ := h
    have hlost : lost addr (bufferSegment pf s.shms name size) shm.size + 0 = 0 ↔ ¬ Shrinks pf s name size := by
      rw [add_zero, lost_eq_zero_iff, Shrinks, not_lt, hsize]
      rfl
    refine (ends_bufferOver h).mono ?_
    rintro (e | buf) m'' ⟨hlate, h⟩
    · have hheld : CleansUp (none : Option (Multiset Resource)) m'' ↔
          lost addr (bufferSegment pf s.shms name size) shm.size + 0 = 0 := by
        constructor
        · intro hclean
          have hreleased := hclean.released rfl
          rwa [h.account] at hreleased
        · intro hnone
          exact CleansUp.failed (hnone ▸ h)
      refine hheld.trans (hlost.trans ?_)
      have hfails : FailsLate pf fuel (Machine.start s prims faults) name size := ⟨shm, m', hexec, hlate⟩
      exact not_congr (and_iff_left hfails).symm
    · refine iff_of_true (CleansUp.made h (Multiset.le_add_right _ _)) ?_
      rintro ⟨-, shm', m₁, hexec', hlate'⟩
      cases hexec.symm.trans hexec'
      exact hlate hlate'

theorem buffer_meets_iff : (Constructor.buffer name size).Meets pf s faults ↔
    ¬ (Shrinks pf s name size ∧ ∃ prims fuel,
    interruptions s faults < fuel ∧ FailsLate pf fuel (Machine.start s prims faults) name size) := by
  constructor
  · rintro hmeets ⟨hshrinks, prims, fuel, hfuel, hlate⟩
    obtain ⟨_, _, -, hclean, hiff⟩ := (hmeets prims fuel hfuel).and (ends_buffer hfuel)
    exact hiff.1 hclean ⟨hshrinks, hlate⟩
  · intro hnot prims fuel hfuel
    refine (ends_buffer hfuel).mono fun _ _ hiff => hiff.2 ?_
    rintro ⟨hshrinks, hlate⟩
    exact hnot ⟨hshrinks, prims, fuel, hfuel, hlate⟩

/-! ### A schedule under which the allocation of the buffer fails -/

/-- A call does not see the faults after the next one. -/
theorem resCall_delayed (c : ResCall) (m : Machine) : ∃ k, ∀ F,
    resCall c { m with faults := List.replicate k none ++ F } =
      ((resCall c { m with faults := [] }).1, { (resCall c { m with faults := [] }).2 with faults := F }) := by
  cases c with
  | sys c =>
    cases c with
    | free b => exact ⟨0, fun F => rfl⟩
    | _ => exact ⟨1, fun F => rfl⟩
  | access b => exact ⟨0, fun F => rfl⟩
  | check ok => exact ⟨0, fun F => rfl⟩
  | mutexNew => exact ⟨1, fun F => rfl⟩
  | mutexFree i => exact ⟨0, fun F => rfl⟩
  | condNew => exact ⟨1, fun F => rfl⟩
  | condFree i => exact ⟨0, fun F => rfl⟩

theorem faults_resCall (c : ResCall) (m : Machine) :
    (resCall c { m with faults := [] }).2 = { (resCall c { m with faults := [] }).2 with faults := [] } := by
  cases c with
  | sys c => cases c <;> rfl
  | _ => rfl

/-- **The faults that come after a run can be chosen.** -/
theorem exec_delayed {α : Type} {p : ResM α} {a : α} {m' : Machine}
    (h : p.exec resCall { m with faults := [] } = some (a, m')) :
    ∃ k, ∀ F, p.exec resCall { m with faults := List.replicate k none ++ F } =
      some (a, { m' with faults := F }) := by
  induction p generalizing m with
  | ret b =>
    cases h
    exact ⟨0, fun F => rfl⟩
  | stuck => cases h
  | call c f ih =>
    rw [exec, faults_resCall] at h
    obtain ⟨k, hk⟩ := resCall_delayed c m
    obtain ⟨k', hk'⟩ := ih _ h
    refine ⟨k + k', fun F => ?_⟩
    rw [List.replicate_add, List.append_assoc, exec, hk]
    exact hk' F

/-- Without faults a program runs as it does without its accesses and checks. -/
theorem exec_of_erase {α : Type} {p : ResM α} {a : α} {s' : SysState} (hfaults : m.faults = [])
    (h : (erase p).exec sysCall m.sys = some (a, s')) : ∃ m', p.exec resCall m = some (a, m') := by
  obtain ⟨s, prims, faults, account, failed⟩ := m
  obtain rfl : faults = [] := hfaults
  induction p generalizing s prims account failed with
  | ret b =>
    cases h
    exact ⟨_, rfl⟩
  | stuck => cases h
  | call c f ih =>
    cases c with
    | sys c => cases c <;> exact ih _ _ _ _ _ h
    | access b => exact ih _ _ _ _ _ h
    | check ok => exact ih _ _ _ _ _ h
    | mutexNew => cases h
    | mutexFree i => cases h
    | condNew => cases h
    | condFree i => cases h

/-- A segment that the handle shrinks is one that exists. -/
theorem Shrinks.hasSegment (h : Shrinks pf s name size) (hfuel : s.interrupts.length < fuel) :
    Posix.HasSegment s fuel pf name (bufferSegment pf s.shms name size) := by
  rw [Shrinks, bufferHandle] at h
  refine ⟨hfuel, ?_, ?_⟩
  · rw [bufferSegment, segmentSize] at h ⊢
    cases hname : s.shms.names (Posix.shmKey pf name) with
    | some i => exact ⟨i, rfl, rfl⟩
    | none =>
      rw [hname] at h
      dsimp only at h
      rw [clampSize, if_neg (fun hlt => UInt64.lt_irrefl _ hlt.1)] at h
      exact absurd h (Nat.lt_irrefl _)
  · intro hzero
    rw [hzero] at h
    exact absurd h (Nat.not_lt_zero _)

/-- Without faults the segment is opened. -/
theorem Shrinks.opened (h : Shrinks pf s name size) (hfuel : s.interrupts.length < fuel) : ∃ shm m',
    (pShmNew pf fuel name (shmBufferSegmentSize size) .readwrite).exec resCall (Machine.start s 0 []) =
      some (.ok shm, m') := by
  have hposix : Ends sysCall (Posix.pShmNew pf fuel name (shmBufferSegmentSize size) .readwrite) s
      fun r _ => ∃ shm, r = .ok shm := by
    refine (Posix.ends_pShmNew_exists (h.hasSegment hfuel)).mono ?_
    rintro r _ ⟨-, shm, hr, -⟩
    exact ⟨shm, hr⟩
  obtain ⟨r, s', hexec, shm, hr⟩ := hposix
  rw [← erase_pShmNew, hr] at hexec
  obtain ⟨m', hexec'⟩ := exec_of_erase (m := Machine.start s 0 []) rfl hexec
  exact ⟨shm, m', hexec'⟩

theorem Shrinks.exists_failsLate (h : Shrinks pf s name size) : ∃ faults prims fuel,
    interruptions s faults < fuel ∧ FailsLate pf fuel (Machine.start s prims faults) name size := by
  obtain ⟨fuel, hfuel⟩ : ∃ fuel, s.interrupts.length + 1 < fuel := ⟨_, Nat.lt_succ_self _⟩
  obtain ⟨shm, m', hexec⟩ := h.opened (Nat.lt_of_succ_lt hfuel)
  obtain ⟨k, hk⟩ := exec_delayed (m := Machine.start s 0 []) hexec
  refine ⟨List.replicate k none ++ [some .EINVAL], 0, fuel, ?_, shm, _, hk _, .inr ?_⟩
  · rw [interruptions, List.countP_append,
      List.countP_eq_zero.2 (fun a ha => by rw [List.eq_of_mem_replicate ha]; simp)]
    exact hfuel
  · exact Option.some_ne_none _

/-! ## Every constructor -/

/-- **Which constructors clean up.**  Semaphores and segments always do; a lock unless one of its parts
    fails; and a buffer, under every schedule of failures, exactly when the handle of its segment
    describes all pages of the segment. -/
theorem constructors_cleanUp (pf : Platform) (s : SysState) (c : Constructor) : match c with
    | .rwlock => ∀ faults, c.Meets pf s faults ↔ ¬ PartFails faults
    | .semaphore _ _ _ | .shm _ _ _ => ∀ faults, c.Meets pf s faults
    | .buffer name size => ((∀ faults, c.Meets pf s faults) ↔ ¬ Shrinks pf s name size) ∧
        ∀ faults, c.Meets pf s faults ↔ ¬ (Shrinks pf s name size ∧ ∃ prims fuel,
          interruptions s faults < fuel ∧ FailsLate pf fuel (Machine.start s prims faults) name size) := by
  cases c with
  | rwlock => exact fun faults => rwlock_meets_iff
  | semaphore name v mode => exact fun faults => semaphore_meets v mode
  | shm name size perms => exact fun faults => shm_meets perms
  | buffer name size =>
    refine ⟨⟨fun hmeets hshrinks => ?_, fun hnot faults => ?_⟩, fun faults => buffer_meets_iff⟩
    · obtain ⟨faults, prims, fuel, hfuel, hlate⟩ := hshrinks.exists_failsLate
      exact buffer_meets_iff.1 (hmeets faults) ⟨hshrinks, prims, fuel, hfuel, hlate⟩
    · exact buffer_meets_iff.2 fun hbad => hnot hbad.1

/-- The mutex of a lock cannot be created: the lock is returned all the same, and its memory is used
    after it has been released. -/
theorem rwlock_not_cleanUp : ¬ Constructor.rwlock.Meets ⟨.little, []⟩ SysState.empty [none, some .EINVAL] ∧
    ∃ lock m', pRwlockNew.exec resCall (Machine.start SysState.empty 0 [none, some .EINVAL]) =
      some (some lock, m') ∧
      m'.failed = true ∧ m'.account.sound = false :=
  ⟨rwlock_meets_iff.not.2 (by decide), _, _, rfl, rfl, by decide⟩

end Plibsys.Faults
