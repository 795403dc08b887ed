/-
  Spinlocks (`pspinlock-c11.c`, `pspinlock-sync.c`, `pspinlock-win.c`): critical sections of any program.

  A thread that waits in `p_spinlock_lock` tries to exchange the word again and again; each exchange is a step.  A
  thread unlocks what it has locked.

  Memory is sequentially consistent: every access of a thread is seen by the others in one order.  The three files
  differ in how they order the store that unlocks: with release semantics, with a barrier behind a plain store, or
  with `p_atomic_int_set`.  On such memory a barrier changes nothing.
-/
import Plibsys.Lib.Critical
import Plibsys.Types

namespace Plibsys.SpinLock

open Critical Interleaving Programs

structure PSpinLock where
  spin : pint
  deriving DecidableEq, Repr

/-- The zeroed structure of `p_spinlock_new`. -/
def pSpinlockNew : PSpinLock := ⟨0⟩

/-! ## `pspinlock-c11.c` -/

namespace C11

/-- `__atomic_compare_exchange_n`: whether it has exchanged the word, the word, and `expected`, where a word
    that is found instead is stored. -/
def atomicCompareExchangeN (word expected desired : pint) : Bool × pint × pint :=
  if word = expected then (true, desired, expected) else (false, word, word)

/-- `__atomic_store_4`, with `__ATOMIC_RELEASE`. -/
def atomicStore4 (_word val : pint) : pint := val

/-- One round of the loop of `p_spinlock_lock`; it is left with `some`. -/
def pSpinlockLock (spinlock : PSpinLock) : Option PSpinLock :=
  let tmp_int : pint := 0
  let (success, spin, _) := atomicCompareExchangeN spinlock.spin tmp_int 1
  if success then some ⟨spin⟩ else none

def pSpinlockTrylock (spinlock : PSpinLock) : Bool × PSpinLock :=
  let tmp_int : pint := 0
  let (success, spin, _) := atomicCompareExchangeN spinlock.spin tmp_int 1
  (success, ⟨spin⟩)

def pSpinlockUnlock (spinlock : PSpinLock) : PSpinLock := ⟨atomicStore4 spinlock.spin 0⟩

end C11

/-! ## `pspinlock-sync.c` -/

namespace Sync

/-- `__sync_bool_compare_and_swap`. -/
def syncBoolCompareAndSwap (word oldval newval : pint) : Bool × pint :=
  if word = oldval then (true, newval) else (false, word)

/-- `__sync_synchronize`. -/
def syncSynchronize (spinlock : PSpinLock) : PSpinLock := spinlock

/-- One round of the loop of `p_spinlock_lock`. -/
def pSpinlockLock (spinlock : PSpinLock) : Option PSpinLock :=
  let (success, spin) := syncBoolCompareAndSwap spinlock.spin 0 1
  if success then some ⟨spin⟩ else none

def pSpinlockTrylock (spinlock : PSpinLock) : Bool × PSpinLock :=
  let (success, spin) := syncBoolCompareAndSwap spinlock.spin 0 1
  (success, ⟨spin⟩)

/-- A plain store, and the barrier behind it. -/
def pSpinlockUnlock (spinlock : PSpinLock) : PSpinLock := syncSynchronize { spinlock with spin := 0 }

end Sync

/-! ## `pspinlock-win.c` -/

namespace Win

/-- `InterlockedCompareExchange`: what the word was, and what it is. -/
def interlockedCompareExchange (atomic newval oldval : pint) : pint × pint :=
  (atomic, if atomic = oldval then newval else atomic)

/-- `p_atomic_int_compare_and_exchange`. -/
def pAtomicIntCompareAndExchange (atomic oldval newval : pint) : Bool × pint :=
  let (before, atomic) := interlockedCompareExchange atomic newval oldval
  (before = oldval, atomic)

/-- `MemoryBarrier`. -/
def memoryBarrier (atomic : pint) : pint := atomic

/-- `p_atomic_int_set`: a plain store, and the barrier behind it. -/
def pAtomicIntSet (_atomic val : pint) : pint := memoryBarrier val

/-- One round of the loop of `p_spinlock_lock`. -/
def pSpinlockLock (spinlock : PSpinLock) : Option PSpinLock :=
  let (success, spin) := pAtomicIntCompareAndExchange spinlock.spin 0 1
  if success then some ⟨spin⟩ else none

def pSpinlockTrylock (spinlock : PSpinLock) : Bool × PSpinLock :=
  let (success, spin) := pAtomicIntCompareAndExchange spinlock.spin 0 1
  (success, ⟨spin⟩)

def pSpinlockUnlock (spinlock : PSpinLock) : PSpinLock := ⟨pAtomicIntSet spinlock.spin 0⟩

end Win

/-! ## The lock -/

/-- The file that is compiled. -/
inductive PSpinLockFile where
  | c11
  | sync
  | win
  deriving DecidableEq, Repr

def pSpinlockLock : PSpinLockFile → PSpinLock → Option PSpinLock
  | .c11 => C11.pSpinlockLock
  | .sync => Sync.pSpinlockLock
  | .win => Win.pSpinlockLock

def pSpinlockTrylock : PSpinLockFile → PSpinLock → Bool × PSpinLock
  | .c11 => C11.pSpinlockTrylock
  | .sync => Sync.pSpinlockTrylock
  | .win => Win.pSpinlockTrylock

def pSpinlockUnlock : PSpinLockFile → PSpinLock → PSpinLock
  | .c11 => C11.pSpinlockUnlock
  | .sync => Sync.pSpinlockUnlock
  | .win => Win.pSpinlockUnlock

/-- A round of `p_spinlock_lock` ends the loop exactly when `p_spinlock_trylock` would have succeeded. -/
theorem pSpinlockLock_eq (file : PSpinLockFile) (spinlock : PSpinLock) : pSpinlockLock file spinlock =
    if (pSpinlockTrylock file spinlock).1 then some (pSpinlockTrylock file spinlock).2 else none := by
  cases file <;> rfl

/-- The exchange succeeds on a free word only, and takes it. -/
theorem pSpinlockTrylock_eq (file : PSpinLockFile) (spinlock : PSpinLock) :
    pSpinlockTrylock file spinlock = if spinlock.spin = 0 then (true, ⟨1⟩) else (false, spinlock) := by
  cases file with
  | c11 =>
    simp only [pSpinlockTrylock, C11.pSpinlockTrylock, C11.atomicCompareExchangeN]
    split_ifs <;> rfl
  | sync =>
    simp only [pSpinlockTrylock, Sync.pSpinlockTrylock, Sync.syncBoolCompareAndSwap]
    split_ifs <;> rfl
  | win =>
    show (decide (spinlock.spin = 0), (⟨if spinlock.spin = 0 then 1 else spinlock.spin⟩ : PSpinLock)) = _
    split_ifs with hfree
    · rw [decide_eq_true hfree]
    · rw [decide_eq_false hfree]

theorem pSpinlockUnlock_eq (file : PSpinLockFile) (spinlock : PSpinLock) :
    pSpinlockUnlock file spinlock = ⟨0⟩ := by
  cases file <;> rfl

def spinlock (file : PSpinLockFile) : Lock PSpinLock where
  free := pSpinlockNew
  taken := ⟨1⟩
  tryLock := pSpinlockLock file
  unlock := pSpinlockUnlock file
  tryLock_free := by
    rw [pSpinlockLock_eq, pSpinlockTrylock_eq]
    rfl
  tryLock_taken := by
    rw [pSpinlockLock_eq, pSpinlockTrylock_eq]
    rfl
  unlock_taken := pSpinlockUnlock_eq file _

variable {ι V Op Result Call : Type} {Reply : Call → Type}

section
variable [DecidableEq Result] (file : PSpinLockFile) (sys : (c : Call) → V → Reply c × V)
  (body : Op → Prog Call Reply Result) (busy : Op → Option Result)

/-- A step of a thread: a try at the lock, one access in its section, or unlocking.  An operation with a result
    `busy` uses `p_spinlock_trylock`, and returns with that result when it is told `FALSE`. -/
def spinStep : ι → Move Op Result → Guarded PSpinLock V → Place Op Result Call Reply →
    Option (Guarded PSpinLock V × Place Op Result Call Reply) :=
  step (spinlock file) sys body busy

end

variable {file : PSpinLockFile} {sys : (c : Call) → V → Reply c × V} {body : Op → Prog Call Reply Result}
  {busy : Op → Option Result}
  {v : V} {c : Config ι (Guarded PSpinLock V) (Place Op Result Call Reply)}

/-- A try succeeds exactly while nobody is in a section. -/
theorem trylock_iff (h : Guards (spinlock file) sys body c v) :
    (pSpinlockTrylock file c.shared.lock).1 = true ↔ ∀ i, ¬ (c.loc i).Inside := by
  cases h with
  | free hlock _ hout =>
    rw [hlock, pSpinlockTrylock_eq]
    exact ⟨fun _ => hout, fun _ => rfl⟩
  | taken i op rest hlock hi =>
    rw [hlock, pSpinlockTrylock_eq]
    constructor
    · intro h
      cases h
    · intro hout
      have hin := hout i
      rw [hi] at hin
      exact absurd trivial hin

variable [DecidableEq ι] [DecidableEq Result] {xs : List (ι × Move Op Result)}

/-- **Sections under a spinlock are atomic**, with each of the files.  In every interleaving of the exchanges
    and of the single accesses of the sections, the calls, the returns and the results are those of sections
    that are run at one moment; at most one thread is in its section, and `p_spinlock_trylock` succeeds
    exactly while there is none. -/
theorem pSpinlock_atomic (hrun : run (spinStep file sys body busy) (start (spinlock file) v) xs = some c) :
    (∃ ys d, run (atomicStep (fun op v => (body op).exec sys v) busy) (atomicStart v) ys = some d ∧
      history Move.event ys = history Move.event xs ∧ ∀ i, d.loc i = (c.loc i).outline) ∧
      (∀ i j, (c.loc i).Inside → (c.loc j).Inside → i = j) ∧
      ((pSpinlockTrylock file c.shared.lock).1 = true ↔ ∀ i, ¬ (c.loc i).Inside) := by
  obtain ⟨ys, d, hys, hhistory, hfollows⟩ := linearizable hrun
  refine ⟨⟨ys, d, hys, hhistory, hfollows.outline⟩, ?_, trylock_iff hfollows.guards⟩
  intro i j hi hj
  exact hfollows.guards.exclusive hi hj

/-- Two threads change a number: one has locked it, and the other one, which only tries, is told `FALSE`. -/
theorem pSpinlock_atomic_busy :
    let sys : (w : Option ℕ) → ℕ → ℕ × ℕ := fun w n => (n, w.getD n)
    let body : Bool → Prog (Option ℕ) (fun _ => ℕ) Bool := fun _ =>
      .call none fun n => .call (some (if n = 10 then 9 else 10)) fun _ => .ret true
    let busy : Bool → Option Bool := fun tries => if tries then some false else none
    let xs : List (Fin 2 × Move Bool Bool) :=
      [(0, .call false), (0, .work), (1, .call true), (0, .work), (1, .work), (1, .ret false), (0, .work)]
    ∃ c, run (spinStep .sync sys body busy) (start (spinlock .sync) 10) xs = some c ∧
      ∀ i j, (c.loc i).Inside → (c.loc j).Inside → i = j := by
  intro sys body busy xs
  obtain ⟨c, hrun⟩ : ∃ c, run (spinStep .sync sys body busy) (start (spinlock .sync) 10) xs = some c := ⟨_, rfl⟩
  exact ⟨c, hrun, (pSpinlock_atomic hrun).2.1⟩

end Plibsys.SpinLock
