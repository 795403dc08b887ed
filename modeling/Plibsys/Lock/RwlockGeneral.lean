/-
  The read-write lock over a mutex and two condition variables (`prwlock-general.c`).

  Any number of threads take turns.  What a call does while it has the mutex is one step; a wait on a
  condition variable gives the mutex up, and returns in a step of its own.  A thread that waits is
  blocked while it is in the set of its condition variable, and then it has been woken; it may also be
  woken without a signal, and its wait may fail.  A thread releases what it holds, and holds the lock
  once at most.
-/
import Mathlib.Data.Finset.SDiff
import Plibsys.Lib.Tally
import Plibsys.Lock.Words

namespace Plibsys.Rwlock

open Interleaving

/-- The two words of a `PRWLock`, and the threads that are blocked on its condition variables. -/
structure PRWLock (ι : Type) where
  active_threads : puint32
  waiting_threads : puint32
  read_cv : Finset ι
  write_cv : Finset ι
  deriving DecidableEq

/-- Where a thread is: outside of the lock, inside of it, or in `p_cond_variable_wait`. -/
inductive Place where
  | idle
  | reading
  | writing
  | readWait
  | writeWait
  deriving DecidableEq, Repr

/-- What a thread does next; a signal wakes the threads `woken`. -/
inductive Choice (ι : Type) where
  | readerLock
  | readerTrylock
  | readerUnlock (woken : Finset ι)
  | writerLock
  | writerTrylock
  | writerUnlock (woken : Finset ι)
  | wakes
  | waitReturns
  | waitFails
  deriving DecidableEq

variable {ι : Type}

section
variable [DecidableEq ι]

/-- `p_cond_variable_signal` wakes at least one of the threads that are blocked. -/
def signal (cv woken : Finset ι) : Option (Finset ι) :=
  if woken ⊆ cv ∧ (cv.Nonempty → woken.Nonempty) then some (cv \ woken) else none

/-! ## Readers -/

/-- `p_rwlock_reader_lock`, up to its end or to the wait. -/
def pRwlockReaderLock (i : ι) (lock : PRWLock ι) : PRWLock ι × Place :=
  if rwlockWriterCount lock.active_threads ≠ 0 then
    ({ lock with
        waiting_threads := rwlockSetReaders lock.waiting_threads (rwlockReaderCount lock.waiting_threads + 1)
        read_cv := insert i lock.read_cv }, .readWait)
  else
    ({ lock with
        active_threads := rwlockSetReaders lock.active_threads (rwlockReaderCount lock.active_threads + 1) },
        .reading)

/-- `p_rwlock_reader_lock`, after the wait. -/
def readerWaited (i : ι) (wait_ok : Bool) (lock : PRWLock ι) : PRWLock ι × Place :=
  if wait_ok ∧ rwlockWriterCount lock.active_threads ≠ 0 then
    ({ lock with read_cv := insert i lock.read_cv }, .readWait)
  else
    let lock := { lock with
      waiting_threads := rwlockSetReaders lock.waiting_threads (rwlockReaderCount lock.waiting_threads - 1) }
    if wait_ok then
      ({ lock with
          active_threads := rwlockSetReaders lock.active_threads (rwlockReaderCount lock.active_threads + 1) },
        .reading)
    else (lock, .idle)

omit [DecidableEq ι] in
def pRwlockReaderTrylock (lock : PRWLock ι) : PRWLock ι × Place :=
  if rwlockWriterCount lock.active_threads ≠ 0 then (lock, .idle)
  else
    ({ lock with
        active_threads := rwlockSetReaders lock.active_threads (rwlockReaderCount lock.active_threads + 1) },
        .reading)

def pRwlockReaderUnlock (woken : Finset ι) (lock : PRWLock ι) : Option (PRWLock ι × Place) :=
  let reader_count := rwlockReaderCount lock.active_threads
  if reader_count = 0 then some (lock, .idle)
  else
    let lock := { lock with active_threads := rwlockSetReaders lock.active_threads (reader_count - 1) }
    if reader_count = 1 ∧ rwlockWriterCount lock.waiting_threads ≠ 0 then
      (signal lock.write_cv woken).map fun write_cv => ({ lock with write_cv }, .idle)
    else some (lock, .idle)

/-! ## Writers -/

/-- `p_rwlock_writer_lock`, up to its end or to the wait. -/
def pRwlockWriterLock (i : ι) (lock : PRWLock ι) : PRWLock ι × Place :=
  if lock.active_threads ≠ 0 then
    ({ lock with
        waiting_threads := rwlockSetWriters lock.waiting_threads (rwlockWriterCount lock.waiting_threads + 1)
        write_cv := insert i lock.write_cv }, .writeWait)
  else ({ lock with active_threads := rwlockSetWriters lock.active_threads 1 }, .writing)

/-- `p_rwlock_writer_lock`, after the wait. -/
def writerWaited (i : ι) (wait_ok : Bool) (lock : PRWLock ι) : PRWLock ι × Place :=
  if wait_ok ∧ lock.active_threads ≠ 0 then
    ({ lock with write_cv := insert i lock.write_cv }, .writeWait)
  else
    let lock := { lock with
      waiting_threads := rwlockSetWriters lock.waiting_threads (rwlockWriterCount lock.waiting_threads - 1) }
    if wait_ok then ({ lock with active_threads := rwlockSetWriters lock.active_threads 1 }, .writing)
    else (lock, .idle)

omit [DecidableEq ι] in
def pRwlockWriterTrylock (lock : PRWLock ι) : PRWLock ι × Place :=
  if lock.active_threads ≠ 0 then (lock, .idle)
  else ({ lock with active_threads := rwlockSetWriters lock.active_threads 1 }, .writing)

def pRwlockWriterUnlock (woken : Finset ι) (lock : PRWLock ι) : Option (PRWLock ι × Place) :=
  let lock := { lock with active_threads := rwlockSetWriters lock.active_threads 0 }
  if rwlockWriterCount lock.waiting_threads ≠ 0 then
    (signal lock.write_cv woken).map fun write_cv => ({ lock with write_cv }, .idle)
  else if rwlockReaderCount lock.waiting_threads ≠ 0 then
    -- `p_cond_variable_broadcast`
    some ({ lock with read_cv := ∅ }, .idle)
  else some (lock, .idle)

/-! ## Steps -/

/-- One step of a thread. -/
def step (i : ι) (a : Choice ι) (lock : PRWLock ι) : Place → Option (PRWLock ι × Place)
  | .idle =>
    match a with
    | .readerLock => some (pRwlockReaderLock i lock)
    | .readerTrylock => some (pRwlockReaderTrylock lock)
    | .writerLock => some (pRwlockWriterLock i lock)
    | .writerTrylock => some (pRwlockWriterTrylock lock)
    | _ => none
  | .reading =>
    match a with
    | .readerUnlock woken => pRwlockReaderUnlock woken lock
    | _ => none
  | .writing =>
    match a with
    | .writerUnlock woken => pRwlockWriterUnlock woken lock
    | _ => none
  | .readWait =>
    match a with
    | .wakes => some ({ lock with read_cv := lock.read_cv.erase i }, .readWait)
    | .waitReturns => if i ∈ lock.read_cv then none else some (readerWaited i true lock)
    | .waitFails => some (readerWaited i false { lock with read_cv := lock.read_cv.erase i })
    | _ => none
  | .writeWait =>
    match a with
    | .wakes => some ({ lock with write_cv := lock.write_cv.erase i }, .writeWait)
    | .waitReturns => if i ∈ lock.write_cv then none else some (writerWaited i true lock)
    | .waitFails => some (writerWaited i false { lock with write_cv := lock.write_cv.erase i })
    | _ => none

abbrev RwConfig (ι : Type) := Config ι (PRWLock ι) Place

variable (ι) in
/-- A new lock. -/
def new : RwConfig ι := ⟨⟨0, 0, ∅, ∅⟩, fun _ => .idle⟩

end

/-! ## The words and the threads -/

/-- The words hold numbers of readers, writers and of those that wait. -/
structure Counts (lock : PRWLock ι) (readers writers readWaiters writeWaiters : ℕ) : Prop where
  active : Packs lock.active_threads readers writers 0
  waiting : Packs lock.waiting_threads readWaiters writeWaiters 0
  exclusive : writers = 0 ∨ writers = 1 ∧ readers = 0

namespace Counts

variable {lock : PRWLock ι} {R W P Q : ℕ}

theorem readerCount (h : Counts lock R W P Q) : (rwlockReaderCount lock.active_threads).toNat = R :=
  h.active.readerCount

theorem writer_iff (h : Counts lock R W P Q) : rwlockWriterCount lock.active_threads ≠ 0 ↔ W ≠ 0 := by
  rw [ne_eq, ← BitVec.toNat_inj, h.active.writerCount]
  rfl

theorem active_iff (h : Counts lock R W P Q) : lock.active_threads ≠ 0 ↔ R ≠ 0 ∨ W ≠ 0 := by
  rw [ne_eq, h.active.eq_zero_iff]
  omega

theorem readWaiter_iff (h : Counts lock R W P Q) : rwlockReaderCount lock.waiting_threads ≠ 0 ↔ P ≠ 0 := by
  rw [ne_eq, ← BitVec.toNat_inj, h.waiting.readerCount]
  rfl

theorem writeWaiter_iff (h : Counts lock R W P Q) : rwlockWriterCount lock.waiting_threads ≠ 0 ↔ Q ≠ 0 := by
  rw [ne_eq, ← BitVec.toNat_inj, h.waiting.writerCount]
  rfl

variable {r w : Finset ι}

theorem beginRead (h : Counts lock R W P Q) (hW : W = 0) (hR : R + 1 < 2 ^ 15) :
    Counts ⟨rwlockSetReaders lock.active_threads (rwlockReaderCount lock.active_threads + 1), lock.waiting_threads,
      r, w⟩ (R + 1) W P Q :=
  ⟨h.active.addReader hR, h.waiting, .inl hW⟩

theorem endRead (h : Counts lock R W P Q) (hR : 0 < R) :
    Counts ⟨rwlockSetReaders lock.active_threads (rwlockReaderCount lock.active_threads - 1), lock.waiting_threads,
      r, w⟩ (R - 1) W P Q :=
  ⟨h.active.subReader hR, h.waiting, h.exclusive.imp_right fun hW => ⟨hW.1, by omega⟩⟩

theorem beginWrite (h : Counts lock R W P Q) (hR : R = 0) :
    Counts ⟨rwlockSetWriters lock.active_threads 1, lock.waiting_threads, r, w⟩ R 1 P Q :=
  ⟨h.active.setWriters (v := 1) (by decide), h.waiting, .inr ⟨rfl, hR⟩⟩

theorem endWrite (h : Counts lock R W P Q) :
    Counts ⟨rwlockSetWriters lock.active_threads 0, lock.waiting_threads, r, w⟩ R 0 P Q :=
  ⟨h.active.setWriters (v := 0) (by decide), h.waiting, .inl rfl⟩

theorem addReadWaiter (h : Counts lock R W P Q) (hP : P + 1 < 2 ^ 15) :
    Counts ⟨lock.active_threads,
      rwlockSetReaders lock.waiting_threads (rwlockReaderCount lock.waiting_threads + 1),
      r, w⟩ R W (P + 1) Q :=
  ⟨h.active, h.waiting.addReader hP, h.exclusive⟩

theorem subReadWaiter (h : Counts lock R W P Q) (hP : 0 < P) :
    Counts ⟨lock.active_threads,
      rwlockSetReaders lock.waiting_threads (rwlockReaderCount lock.waiting_threads - 1),
      r, w⟩ R W (P - 1) Q :=
  ⟨h.active, h.waiting.subReader hP, h.exclusive⟩

theorem addWriteWaiter (h : Counts lock R W P Q) (hQ : Q + 1 < 2 ^ 15) :
    Counts ⟨lock.active_threads,
      rwlockSetWriters lock.waiting_threads (rwlockWriterCount lock.waiting_threads + 1),
      r, w⟩ R W P (Q + 1) :=
  ⟨h.active, h.waiting.addWriter hQ, h.exclusive⟩

theorem subWriteWaiter (h : Counts lock R W P Q) (hQ : 0 < Q) :
    Counts ⟨lock.active_threads,
      rwlockSetWriters lock.waiting_threads (rwlockWriterCount lock.waiting_threads - 1),
      r, w⟩ R W P (Q - 1) :=
  ⟨h.active, h.waiting.subWriter hQ, h.exclusive⟩

theorem congr (h : Counts lock R W P Q) : Counts ⟨lock.active_threads, lock.waiting_threads, r, w⟩ R W P Q :=
  ⟨h.active, h.waiting, h.exclusive⟩

end Counts

/-- Whether a place is this one, as a number. -/
def count (p l : Place) : ℕ := if l = p then 1 else 0

theorem count_le_one (p l : Place) : count p l ≤ 1 := by
  unfold count
  split <;> decide

variable [Fintype ι]

/-- The words count the threads. -/
def Inv (c : RwConfig ι) : Prop :=
  Counts c.shared (c.tally (count .reading)) (c.tally (count .writing)) (c.tally (count .readWait))
    (c.tally (count .writeWait))

variable [DecidableEq ι]

/-- **What a step does**, in terms of the numbers of threads: the sets of blocked threads and the place of the
    thread after it. -/
inductive Effect (c : RwConfig ι) (i : ι) (a : Choice ι) : Finset ι → Finset ι → Place → Prop where
  | refused : c.loc i = .idle → Effect c i a c.shared.read_cv c.shared.write_cv .idle
  | beginRead : (c.loc i = .idle ∨ c.loc i = .readWait ∧ i ∉ c.shared.read_cv) → c.tally (count .writing) = 0 →
      Effect c i a c.shared.read_cv c.shared.write_cv .reading
  | waitRead : (c.loc i = .idle ∨ c.loc i = .readWait ∧ i ∉ c.shared.read_cv) → c.tally (count .writing) ≠ 0 →
      Effect c i a (insert i c.shared.read_cv) c.shared.write_cv .readWait
  | readWakes : c.loc i = .readWait → Effect c i a (c.shared.read_cv.erase i) c.shared.write_cv .readWait
  | readFails : c.loc i = .readWait → a = .waitFails →
      Effect c i a (c.shared.read_cv.erase i) c.shared.write_cv .idle
  | beginWrite : (c.loc i = .idle ∨ c.loc i = .writeWait ∧ i ∉ c.shared.write_cv) →
      c.tally (count .reading) = 0 ∧ c.tally (count .writing) = 0 →
      Effect c i a c.shared.read_cv c.shared.write_cv .writing
  | waitWrite : (c.loc i = .idle ∨ c.loc i = .writeWait ∧ i ∉ c.shared.write_cv) →
      c.tally (count .reading) ≠ 0 ∨ c.tally (count .writing) ≠ 0 →
      Effect c i a c.shared.read_cv (insert i c.shared.write_cv) .writeWait
  | writeWakes : c.loc i = .writeWait → Effect c i a c.shared.read_cv (c.shared.write_cv.erase i) .writeWait
  | writeFails : c.loc i = .writeWait → a = .waitFails →
      Effect c i a c.shared.read_cv (c.shared.write_cv.erase i) .idle
  | endRead : c.loc i = .reading → c.tally (count .reading) ≠ 1 ∨ c.tally (count .writeWait) = 0 →
      Effect c i a c.shared.read_cv c.shared.write_cv .idle
  | signalWriter (woken : Finset ι) :
      (c.loc i = .reading ∧ c.tally (count .reading) = 1) ∨ c.loc i = .writing → c.tally (count .writeWait) ≠ 0 →
      (c.shared.write_cv.Nonempty → woken.Nonempty) → woken ⊆ c.shared.write_cv →
      Effect c i a c.shared.read_cv (c.shared.write_cv \ woken) .idle
  | broadcastReaders : c.loc i = .writing → c.tally (count .writeWait) = 0 → c.tally (count .readWait) ≠ 0 →
      Effect c i a ∅ c.shared.write_cv .idle
  | endWrite : c.loc i = .writing → c.tally (count .writeWait) = 0 → c.tally (count .readWait) = 0 →
      Effect c i a c.shared.read_cv c.shared.write_cv .idle

variable {c : RwConfig ι} {i : ι} {a : Choice ι} {s : PRWLock ι} {l : Place}

/-- One more thread can be counted wherever the thread `i` is not. -/
def Room (c : RwConfig ι) (i : ι) : Prop := ∀ p : Place, p ≠ .idle → c.loc i ≠ p → c.tally (count p) + 1 < 2 ^ 15

omit [DecidableEq ι] in
theorem Room.of_card (hcard : Fintype.card ι < 2 ^ 15) (c : RwConfig ι) (i : ι) : Room c i := fun p _ hi =>
  (Nat.succ_le_of_lt (tally_lt_card (count_le_one p) (if_neg hi))).trans_lt hcard

omit [DecidableEq ι] in
theorem present {p : Place} (hi : c.loc i = p) : 0 < c.tally (count p) := by
  have hle := le_tally (count p) c i
  rw [count, if_pos hi] at hle
  exact hle

namespace Inv

/-- The numbers are right again after a step of the thread `i`. -/
theorem set {R W P Q : ℕ} (hs : Counts s R W P Q)
    (hR : R + count .reading (c.loc i) = c.tally (count .reading) + count .reading l)
    (hW : W + count .writing (c.loc i) = c.tally (count .writing) + count .writing l)
    (hP : P + count .readWait (c.loc i) = c.tally (count .readWait) + count .readWait l)
    (hQ : Q + count .writeWait (c.loc i) = c.tally (count .writeWait) + count .writeWait l) :
    Inv (c.set i s l) := by
  have hR' := tally_set (count .reading) c i s l
  have hW' := tally_set (count .writing) c i s l
  have hP' := tally_set (count .readWait) c i s l
  have hQ' := tally_set (count .writeWait) c i s l
  obtain rfl : R = (c.set i s l).tally (count .reading) := by omega
  obtain rfl : W = (c.set i s l).tally (count .writing) := by omega
  obtain rfl : P = (c.set i s l).tally (count .readWait) := by omega
  obtain rfl : Q = (c.set i s l).tally (count .writeWait) := by omega
  exact hs

/-- The words do not change. -/
theorem set_same (h : Inv c) {read_cv write_cv : Finset ι} (hl : l = c.loc i) :
    Inv (c.set i ⟨c.shared.active_threads, c.shared.waiting_threads, read_cv, write_cv⟩ l) := by
  subst hl
  exact set h.congr rfl rfl rfl rfl

theorem readerLock (h : Inv c) (hroom : Room c i) (hloc : c.loc i = .idle)
    (hs : pRwlockReaderLock i c.shared = (s, l)) : Inv (c.set i s l) ∧ Effect c i a s.read_cv s.write_cv l := by
  rw [pRwlockReaderLock] at hs
  split at hs
  next hW =>
    cases hs
    refine ⟨set (h.addReadWaiter (hroom _ (by decide) (by rw [hloc]; decide))) ?_ ?_ ?_ ?_,
      .waitRead (.inl hloc) (h.writer_iff.1 hW)⟩ <;>
      (rw [hloc]; rfl)
  next hW =>
    cases hs
    have hzero := not_not.1 (mt h.writer_iff.2 hW)
    refine ⟨set (h.beginRead hzero (hroom _ (by decide) (by rw [hloc]; decide))) ?_ ?_ ?_ ?_,
      .beginRead (.inl hloc) hzero⟩ <;>
      (rw [hloc]; rfl)

theorem readerTrylock (h : Inv c) (hroom : Room c i) (hloc : c.loc i = .idle)
    (hs : pRwlockReaderTrylock c.shared = (s, l)) : Inv (c.set i s l) ∧ Effect c i a s.read_cv s.write_cv l := by
  rw [pRwlockReaderTrylock] at hs
  split at hs
  next =>
    cases hs
    exact ⟨h.set_same hloc.symm, .refused hloc⟩
  next hW =>
    cases hs
    have hzero := not_not.1 (mt h.writer_iff.2 hW)
    have hlt := hroom .reading (by decide) (by rw [hloc]; decide)
    refine ⟨set (h.beginRead hzero hlt) ?_ ?_ ?_ ?_, .beginRead (.inl hloc) hzero⟩ <;> (rw [hloc]; rfl)

/-- A thread that has been woken looks at the lock again. -/
theorem readerWaited (h : Inv c) (hroom : Room c i) (hloc : c.loc i = .readWait)
    (hwoken : i ∉ c.shared.read_cv) (hs : Rwlock.readerWaited i true c.shared = (s, l)) :
    Inv (c.set i s l) ∧ Effect c i a s.read_cv s.write_cv l := by
  rw [Rwlock.readerWaited] at hs
  split at hs
  next hW =>
    cases hs
    exact ⟨h.set_same hloc.symm, .waitRead (.inr ⟨hloc, hwoken⟩) (h.writer_iff.1 hW.2)⟩
  next hW =>
    cases hs
    have hzero : c.tally (count .writing) = 0 := by
      by_contra hne
      exact hW ⟨rfl, h.writer_iff.2 hne⟩
    have hlt := hroom .reading (by decide) (by rw [hloc]; decide)
    have hpresent := present hloc
    refine ⟨set ((h.subReadWaiter (r := ∅) (w := ∅) hpresent).beginRead hzero hlt) ?_ ?_ ?_ ?_,
      .beginRead (.inr ⟨hloc, hwoken⟩) hzero⟩
    · rw [hloc]; rfl
    · rw [hloc]; rfl
    · rw [hloc]; exact Nat.sub_add_cancel hpresent
    · rw [hloc]; rfl

theorem readerWaitFailed (h : Inv c) (hloc : c.loc i = .readWait) (ha : a = .waitFails)
    (hs : Rwlock.readerWaited i false { c.shared with read_cv := c.shared.read_cv.erase i } = (s, l)) :
    Inv (c.set i s l) ∧ Effect c i a s.read_cv s.write_cv l := by
  have hpresent := present hloc
  cases hs
  refine ⟨set (h.subReadWaiter hpresent) ?_ ?_ ?_ ?_, .readFails hloc ha⟩
  · rw [hloc]; rfl
  · rw [hloc]; rfl
  · rw [hloc]; exact Nat.sub_add_cancel hpresent
  · rw [hloc]; rfl

theorem readerUnlock (h : Inv c) (hloc : c.loc i = .reading) {woken : Finset ι}
    (hs : pRwlockReaderUnlock woken c.shared = some (s, l)) :
    Inv (c.set i s l) ∧ Effect c i a s.read_cv s.write_cv l := by
  have hpresent := present hloc
  have hcount := h.readerCount
  have hset : ∀ {read_cv write_cv : Finset ι}, Inv (c.set i
      ⟨rwlockSetReaders c.shared.active_threads (rwlockReaderCount c.shared.active_threads - 1),
        c.shared.waiting_threads,
        read_cv, write_cv⟩ .idle) := by
    intro read_cv write_cv
    refine set (h.endRead hpresent) ?_ ?_ ?_ ?_
    · rw [hloc]; exact Nat.sub_add_cancel hpresent
    · rw [hloc]; rfl
    · rw [hloc]; rfl
    · rw [hloc]; rfl
  have hone : rwlockReaderCount c.shared.active_threads = 1 ↔ c.tally (count .reading) = 1 := by
    rw [← BitVec.toNat_inj, hcount]
    rfl
  rw [pRwlockReaderUnlock] at hs
  split at hs
  next hzero =>
    rw [hzero] at hcount
    exact absurd hcount (Nat.ne_of_lt hpresent)
  next =>
    dsimp only at hs
    split at hs
    next hlast =>
      obtain ⟨write_cv, hsignal, hs⟩ := Option.map_eq_some_iff.1 hs
      obtain ⟨⟨hsub, hwoken⟩, hcv⟩ := Option.ite_none_right_eq_some.1 hsignal
      cases hcv
      cases hs
      exact ⟨hset, .signalWriter woken (.inl ⟨hloc, hone.1 hlast.1⟩) (h.writeWaiter_iff.1 hlast.2) hwoken hsub⟩
    next hlast =>
      cases hs
      refine ⟨hset, .endRead hloc ?_⟩
      rw [hone, h.writeWaiter_iff] at hlast
      omega

theorem writerLock (h : Inv c) (hroom : Room c i) (hloc : c.loc i = .idle)
    (hs : pRwlockWriterLock i c.shared = (s, l)) : Inv (c.set i s l) ∧ Effect c i a s.read_cv s.write_cv l := by
  rw [pRwlockWriterLock] at hs
  split at hs
  next hactive =>
    cases hs
    have hlt := hroom .writeWait (by decide) (by rw [hloc]; decide)
    refine ⟨set (h.addWriteWaiter hlt) ?_ ?_ ?_ ?_, .waitWrite (.inl hloc) (h.active_iff.1 hactive)⟩ <;>
      (rw [hloc]; rfl)
  next hactive =>
    cases hs
    rw [h.active_iff, not_or, not_not, not_not] at hactive
    refine ⟨set (h.beginWrite hactive.1) ?_ ?_ ?_ ?_, .beginWrite (.inl hloc) hactive⟩
    · rw [hloc]; rfl
    · rw [hloc, hactive.2]; rfl
    · rw [hloc]; rfl
    · rw [hloc]; rfl

theorem writerTrylock (h : Inv c) (hloc : c.loc i = .idle) (hs : pRwlockWriterTrylock c.shared = (s, l)) :
    Inv (c.set i s l) ∧ Effect c i a s.read_cv s.write_cv l := by
  rw [pRwlockWriterTrylock] at hs
  split at hs
  next =>
    cases hs
    exact ⟨h.set_same hloc.symm, .refused hloc⟩
  next hactive =>
    cases hs
    rw [h.active_iff, not_or, not_not, not_not] at hactive
    refine ⟨set (h.beginWrite hactive.1) ?_ ?_ ?_ ?_, .beginWrite (.inl hloc) hactive⟩
    · rw [hloc]; rfl
    · rw [hloc, hactive.2]; rfl
    · rw [hloc]; rfl
    · rw [hloc]; rfl

theorem writerWaited (h : Inv c) (hloc : c.loc i = .writeWait) (hwoken : i ∉ c.shared.write_cv)
    (hs : Rwlock.writerWaited i true c.shared = (s, l)) :
    Inv (c.set i s l) ∧ Effect c i a s.read_cv s.write_cv l := by
  rw [Rwlock.writerWaited] at hs
  split at hs
  next hactive =>
    cases hs
    exact ⟨h.set_same hloc.symm, .waitWrite (.inr ⟨hloc, hwoken⟩) (h.active_iff.1 hactive.2)⟩
  next hactive =>
    cases hs
    have hzero : c.tally (count .reading) = 0 ∧ c.tally (count .writing) = 0 := by
      by_contra hne
      exact hactive ⟨rfl, h.active_iff.2 (by omega)⟩
    have hpresent := present hloc
    refine ⟨set ((h.subWriteWaiter (r := ∅) (w := ∅) hpresent).beginWrite hzero.1) ?_ ?_ ?_ ?_,
      .beginWrite (.inr ⟨hloc, hwoken⟩) hzero⟩
    · rw [hloc]; rfl
    · rw [hloc, hzero.2]; rfl
    · rw [hloc]; rfl
    · rw [hloc]; exact Nat.sub_add_cancel hpresent

theorem writerWaitFailed (h : Inv c) (hloc : c.loc i = .writeWait) (ha : a = .waitFails)
    (hs : Rwlock.writerWaited i false { c.shared with write_cv := c.shared.write_cv.erase i } = (s, l)) :
    Inv (c.set i s l) ∧ Effect c i a s.read_cv s.write_cv l := by
  have hpresent := present hloc
  cases hs
  refine ⟨set (h.subWriteWaiter hpresent) ?_ ?_ ?_ ?_, .writeFails hloc ha⟩
  · rw [hloc]; rfl
  · rw [hloc]; rfl
  · rw [hloc]; rfl
  · rw [hloc]; exact Nat.sub_add_cancel hpresent

theorem writerUnlock (h : Inv c) (hloc : c.loc i = .writing) {woken : Finset ι}
    (hs : pRwlockWriterUnlock woken c.shared = some (s, l)) :
    Inv (c.set i s l) ∧ Effect c i a s.read_cv s.write_cv l := by
  have hpresent := present hloc
  have hone : c.tally (count .writing) = 1 := by
    have hexclusive := h.exclusive
    omega
  have hset : ∀ {read_cv write_cv : Finset ι}, Inv (c.set i
      ⟨rwlockSetWriters c.shared.active_threads 0, c.shared.waiting_threads, read_cv, write_cv⟩ .idle) := by
    intro read_cv write_cv
    refine set h.endWrite ?_ ?_ ?_ ?_
    · rw [hloc]; rfl
    · rw [hloc, hone]; rfl
    · rw [hloc]; rfl
    · rw [hloc]; rfl
  rw [pRwlockWriterUnlock] at hs
  dsimp only at hs
  split at hs
  next hwriters =>
    obtain ⟨write_cv, hsignal, hs⟩ := Option.map_eq_some_iff.1 hs
    obtain ⟨⟨hsub, hwoken⟩, hcv⟩ := Option.ite_none_right_eq_some.1 hsignal
    cases hcv
    cases hs
    exact ⟨hset, .signalWriter woken (.inr hloc) (h.writeWaiter_iff.1 hwriters) hwoken hsub⟩
  next hwriters =>
    have hzero := not_not.1 (mt h.writeWaiter_iff.2 hwriters)
    split at hs
    next hreaders =>
      cases hs
      exact ⟨hset, .broadcastReaders hloc hzero (h.readWaiter_iff.1 hreaders)⟩
    next hreaders =>
      cases hs
      exact ⟨hset, .endWrite hloc hzero (not_not.1 (mt h.readWaiter_iff.2 hreaders))⟩

/-- **Every step keeps the words right, and has one of the effects.** -/
theorem step (h : Inv c) (hroom : Room c i) (hstep : step i a c.shared (c.loc i) = some (s, l)) :
    Inv (c.set i s l) ∧ Effect c i a s.read_cv s.write_cv l := by
  cases hloc : c.loc i with
  | idle =>
    rw [hloc] at hstep
    cases a with
    | readerLock => exact h.readerLock hroom hloc (Option.some.inj hstep)
    | readerTrylock => exact h.readerTrylock hroom hloc (Option.some.inj hstep)
    | writerLock => exact h.writerLock hroom hloc (Option.some.inj hstep)
    | writerTrylock => exact h.writerTrylock hloc (Option.some.inj hstep)
    | _ => cases hstep
  | reading =>
    rw [hloc] at hstep
    cases a with
    | readerUnlock woken => exact h.readerUnlock hloc hstep
    | _ => cases hstep
  | writing =>
    rw [hloc] at hstep
    cases a with
    | writerUnlock woken => exact h.writerUnlock hloc hstep
    | _ => cases hstep
  | readWait =>
    rw [hloc] at hstep
    cases a with
    | wakes =>
      cases hstep
      exact ⟨h.set_same hloc.symm, .readWakes hloc⟩
    | waitReturns =>
      obtain ⟨hwoken, hstep⟩ := Option.ite_none_left_eq_some.1 hstep
      exact h.readerWaited hroom hloc hwoken (Option.some.inj hstep)
    | waitFails => exact h.readerWaitFailed hloc rfl (Option.some.inj hstep)
    | _ => cases hstep
  | writeWait =>
    rw [hloc] at hstep
    cases a with
    | wakes =>
      cases hstep
      exact ⟨h.set_same hloc.symm, .writeWakes hloc⟩
    | waitReturns =>
      obtain ⟨hwoken, hstep⟩ := Option.ite_none_left_eq_some.1 hstep
      exact h.writerWaited hloc hwoken (Option.some.inj hstep)
    | waitFails => exact h.writerWaitFailed hloc rfl (Option.some.inj hstep)
    | _ => cases hstep

variable (ι) in
omit [DecidableEq ι] in
theorem new : Inv (new ι) := by
  have hzero : ∀ p : Place, p ≠ .idle → (Rwlock.new ι).tally (count p) = 0 := fun p hp =>
    tally_eq_zero fun _ => if_neg hp.symm
  refine ⟨?_, ?_, .inl (hzero _ (by decide))⟩
  · rw [hzero _ (by decide), hzero _ (by decide)]
    exact Packs.zero
  · rw [hzero _ (by decide), hzero _ (by decide)]
    exact Packs.zero

theorem of_reaches (hcard : Fintype.card ι < 2 ^ 15) (hreach : Reaches Rwlock.step (Rwlock.new ι) c) : Inv c :=
  hreach.invariant (fun _ _ _ _ _ h hstep => (h.step (.of_card hcard _ _) hstep).1) (new ι)

end Inv

/-! ## Mutual exclusion -/

/-- The number of the threads at a place. -/
def number (p : Place) (c : RwConfig ι) : ℕ := (Finset.univ.filter fun i => c.loc i = p).card

/-- **Mutual exclusion**: a thread that writes is alone, and the words are the numbers of those that hold the lock
    and of those that wait. -/
structure Exclusive (c : RwConfig ι) : Prop where
  alone : ∀ i j, i ≠ j → c.loc i = .writing → c.loc j ≠ .reading ∧ c.loc j ≠ .writing
  active : c.shared.active_threads.toNat = number .reading c + 2 ^ 15 * number .writing c
  readers : (rwlockReaderCount c.shared.active_threads).toNat = number .reading c
  writers : (rwlockWriterCount c.shared.active_threads).toNat = number .writing c
  waiting : c.shared.waiting_threads.toNat = number .readWait c + 2 ^ 15 * number .writeWait c
  waitingReaders : (rwlockReaderCount c.shared.waiting_threads).toNat = number .readWait c
  waitingWriters : (rwlockWriterCount c.shared.waiting_threads).toNat = number .writeWait c

omit [DecidableEq ι] in
theorem tally_count (p : Place) (c : RwConfig ι) : c.tally (count p) = number p c := tally_eq_card (· = p) c

theorem Inv.exclusive_of (h : Inv c) : Exclusive c := by
  have halone : ∀ i j, i ≠ j → c.loc i = .writing → c.loc j ≠ .reading ∧ c.loc j ≠ .writing := by
    intro i j hij hi
    have hexclusive := h.exclusive
    have hwriting := present hi
    refine ⟨fun hj => ?_, fun hj => ?_⟩
    · have hreading := present hj
      omega
    · have htwo := add_le_tally hij (count .writing) c
      rw [hi, hj] at htwo
      have hone : count .writing .writing = 1 := rfl
      omega
  simp only [Inv, tally_count] at h
  exact ⟨halone, h.active.toNat_eq, h.active.readerCount, h.active.writerCount, h.waiting.toNat_eq,
    h.waiting.readerCount, h.waiting.writerCount⟩

/-- **Every reachable state is exclusive.** -/
theorem rwlock_exclusive {ι : Type} [Fintype ι] [DecidableEq ι] (hcard : Fintype.card ι < 32768) {c : RwConfig ι}
    (hreach : Reaches step (new ι) c) : Exclusive c := (Inv.of_reaches hcard hreach).exclusive_of

/-- A reader, and a writer that waits. -/
theorem rwlock_exclusive_two : ∃ c, Reaches step (new (Fin 2)) c ∧ c.loc 1 = .writeWait ∧ Exclusive c :=
  have hrun : ∃ c, run step (new (Fin 2)) [(0, .readerLock), (1, .writerLock)] = some c ∧ c.loc 1 = .writeWait :=
    ⟨_, rfl, rfl⟩
  hrun.elim fun c hc => ⟨c, ⟨_, hc.1⟩, hc.2, rwlock_exclusive (by decide) ⟨_, hc.1⟩⟩

end Plibsys.Rwlock
