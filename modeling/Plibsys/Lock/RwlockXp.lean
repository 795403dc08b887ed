/-
  The read-write lock for Windows XP (`prwlock-win.c`): one word and an auto-reset event.

  Each atomic get, each exchange, each `SetEvent` and each wait of a thread is a step of its own, so that a
  thread may act on a word that is no longer there; then its exchange fails and it starts over.
  `SetEvent` and `WaitForSingleObject` may fail, and the code goes ahead.  A thread releases what it
  holds, and holds the lock until the exchange of its release succeeds.
-/
import Plibsys.Lib.Tally
import Plibsys.Lock.Words

namespace Plibsys.RwlockXp

open Interleaving

/-- The `PRWLockXP` structure, with the state of its event. -/
structure PRWLockXP where
  lock : puint32
  event : Bool
  deriving DecidableEq, Repr

/-- To read or to write. -/
inductive Side where
  | read
  | write
  deriving DecidableEq, Repr

/-- The next atomic operation of `pp_rwlock_start_read_xp` or `pp_rwlock_start_write_xp`. -/
inductive Start where
  | get (i : ℕ)
  | cas (i : ℕ) (tmp_lock : puint32)
  | waitCas (i : ℕ) (tmp_lock : puint32)
  | wait
  | waitedGet
  | waitedCas (tmp_lock : puint32)
  deriving DecidableEq, Repr

/-- The next atomic operation of `pp_rwlock_start_read_try_xp` or `pp_rwlock_start_write_try_xp`. -/
inductive StartTry where
  | get
  | cas (tmp_lock : puint32)
  deriving DecidableEq, Repr

/-- The next atomic operation of `pp_rwlock_end_read_xp`. -/
inductive EndRead where
  | get
  | set (tmp_lock : puint32)
  | cas (tmp_lock : puint32)
  deriving DecidableEq, Repr

/-- The next atomic operation of `pp_rwlock_end_write_xp`. -/
inductive EndWrite where
  | get
  | set
  | cas (tmp_lock : puint32)
  deriving DecidableEq, Repr

/-- Where a thread is: outside of the lock, inside of it, or in one of the calls. -/
inductive Place where
  | idle
  | held (side : Side)
  | start (side : Side) (p : Start)
  | startTry (side : Side) (p : StartTry)
  | endRead (p : EndRead)
  | endWrite (p : EndWrite)
  deriving DecidableEq, Repr

/-- What a thread does next: a call, or the next operation of the call that it is in, which may fail. -/
inductive Choice where
  | lock (side : Side)
  | trylock (side : Side)
  | unlock
  | go
  | fails
  deriving DecidableEq, Repr

/-- `p_atomic_int_compare_and_exchange`, and where the thread goes then. -/
def compareAndExchange (s : PRWLockXP) (oldval newval : puint32) (done failed : Place) : PRWLockXP × Place :=
  if s.lock = oldval then ({ s with lock := newval }, done) else (s, failed)

/-! ## Locking -/

/-- Whether the word lets a thread in. -/
def Side.free : Side → puint32 → Bool
  | .read, tmp_lock => !rwlockXpIsWriter tmp_lock
  | .write, tmp_lock => rwlockXpIsClear tmp_lock

/-- The word when a thread has come in. -/
def Side.counter : Side → puint32 → puint32
  | .read, tmp_lock => rwlockXpSetReaders tmp_lock (rwlockXpReaderCount tmp_lock + 1)
  | .write, tmp_lock => rwlockXpSetWriter tmp_lock

/-- `pp_rwlock_start_read_xp` and `pp_rwlock_start_write_xp` differ in the test and in the new word. -/
def startXp (side : Side) (a : Choice) (s : PRWLockXP) : Start → Option (PRWLockXP × Place)
  | .get i =>
    if a ≠ .go then none
    else if side.free s.lock then some (s, .start side (.cas i s.lock))
    -- `p_uthread_yield`
    else if i < rwlockXpMaxSpin then some (s, .start side (.get (i + 1)))
    else some (s, .start side (.waitCas i s.lock))
  | .cas i tmp_lock =>
    if a ≠ .go then none
    else some (compareAndExchange s tmp_lock (side.counter tmp_lock) (.held side) (.start side (.get (i + 1))))
  | .waitCas i tmp_lock =>
    if a ≠ .go then none
    else
      let counter := rwlockXpSetWaiting tmp_lock (rwlockXpWaitingCount tmp_lock + 1)
      some (compareAndExchange s tmp_lock counter (.start side .wait) (.start side (.get (i + 1))))
  | .wait =>
    match a with
    | .go => if s.event then some ({ s with event := false }, .start side .waitedGet) else none
    | .fails => some (s, .start side .waitedGet)
    | _ => none
  | .waitedGet => if a ≠ .go then none else some (s, .start side (.waitedCas s.lock))
  | .waitedCas tmp_lock =>
    if a ≠ .go then none
    else
      let counter := rwlockXpSetWaiting tmp_lock (rwlockXpWaitingCount tmp_lock - 1)
      -- `i` was set to 0 before the wait
      some (compareAndExchange s tmp_lock counter (.start side (.get 1)) (.start side .waitedGet))

def ppRwlockStartReadXp : Choice → PRWLockXP → Start → Option (PRWLockXP × Place) := startXp .read

def ppRwlockStartWriteXp : Choice → PRWLockXP → Start → Option (PRWLockXP × Place) := startXp .write

/-- `pp_rwlock_start_read_try_xp` and `pp_rwlock_start_write_try_xp`. -/
def startTryXp (side : Side) (a : Choice) (s : PRWLockXP) : StartTry → Option (PRWLockXP × Place)
  | .get =>
    if a ≠ .go then none
    else if side.free s.lock then some (s, .startTry side (.cas s.lock))
    else some (s, .idle)
  | .cas tmp_lock =>
    if a ≠ .go then none
    else some (compareAndExchange s tmp_lock (side.counter tmp_lock) (.held side) .idle)

def ppRwlockStartReadTryXp : Choice → PRWLockXP → StartTry → Option (PRWLockXP × Place) := startTryXp .read

def ppRwlockStartWriteTryXp : Choice → PRWLockXP → StartTry → Option (PRWLockXP × Place) := startTryXp .write

/-! ## Unlocking -/

/-- `SetEvent`. -/
def setEvent (a : Choice) (s : PRWLockXP) : Option PRWLockXP :=
  match a with
  | .go => some { s with event := true }
  | .fails => some s
  | _ => none

def ppRwlockEndReadXp (a : Choice) (s : PRWLockXP) : EndRead → Option (PRWLockXP × Place)
  | .get =>
    if a ≠ .go then none
    else
      let counter := rwlockXpReaderCount s.lock
      if counter = 0 then some (s, .idle)
      else if counter = 1 ∧ rwlockXpWaitingCount s.lock ≠ 0 then some (s, .endRead (.set s.lock))
      else some (s, .endRead (.cas s.lock))
  | .set tmp_lock => (setEvent a s).map fun s => (s, .endRead (.cas tmp_lock))
  | .cas tmp_lock =>
    if a ≠ .go then none
    else
      let counter := rwlockXpSetReaders tmp_lock (rwlockXpReaderCount tmp_lock - 1)
      some (compareAndExchange s tmp_lock counter .idle (.endRead .get))

def ppRwlockEndWriteXp (a : Choice) (s : PRWLockXP) : EndWrite → Option (PRWLockXP × Place)
  | .get =>
    if a ≠ .go then none
    else if !rwlockXpIsWriter s.lock then some (s, .idle)
    else if rwlockXpWaitingCount s.lock = 0 then some (s, .endWrite (.cas s.lock))
    else some (s, .endWrite .set)
  | .set => (setEvent a s).map fun s => (s, .endWrite .get)
  | .cas tmp_lock =>
    if a ≠ .go then none
    else some (compareAndExchange s tmp_lock (rwlockXpUnsetWriter tmp_lock) .idle (.endWrite .get))

/-! ## Steps -/

variable {ι : Type}

/-- One step of a thread. -/
def step (_ : ι) (a : Choice) (s : PRWLockXP) : Place → Option (PRWLockXP × Place)
  | .idle =>
    match a with
    | .lock side => some (s, .start side (.get 0))
    | .trylock side => some (s, .startTry side .get)
    | _ => none
  | .held .read => if a = .unlock then some (s, .endRead .get) else none
  | .held .write => if a = .unlock then some (s, .endWrite .get) else none
  | .start .read p => ppRwlockStartReadXp a s p
  | .start .write p => ppRwlockStartWriteXp a s p
  | .startTry .read p => ppRwlockStartReadTryXp a s p
  | .startTry .write p => ppRwlockStartWriteTryXp a s p
  | .endRead p => ppRwlockEndReadXp a s p
  | .endWrite p => ppRwlockEndWriteXp a s p

theorem step_start (i : ι) (a : Choice) (s : PRWLockXP) (side : Side) (p : Start) :
    step i a s (.start side p) = startXp side a s p := by
  cases side <;> rfl

theorem step_startTry (i : ι) (a : Choice) (s : PRWLockXP) (side : Side) (p : StartTry) :
    step i a s (.startTry side p) = startTryXp side a s p := by
  cases side <;> rfl

abbrev XpConfig (ι : Type) := Config ι PRWLockXP Place

variable (ι) in
/-- A new lock. -/
def new : XpConfig ι := ⟨⟨0, false⟩, fun _ => .idle⟩

/-! ## The threads -/

/-- Whether a thread holds the lock: until the exchange of its release succeeds. -/
def Place.holds (side : Side) : Place → Bool
  | .held side' => side' = side
  | .endRead _ => .read = side
  | .endWrite _ => .write = side
  | _ => false

/-- Whether a thread is one of those that the word counts as waiting. -/
def Place.waits : Place → Bool
  | .start _ .wait => true
  | .start _ .waitedGet => true
  | .start _ (.waitedCas _) => true
  | _ => false

/-- Whether a thread runs in `pp_rwlock_start_read_xp` or `pp_rwlock_start_write_xp`. -/
def Place.awake : Place → Bool
  | .start _ .wait => false
  | .start _ _ => true
  | _ => false

/-- Whether a place is outside of the lock or belongs to the calls of this side. -/
def Place.onSide (side : Side) : Place → Bool
  | .idle => true
  | .held side' => side' = side
  | .start side' _ => side' = side
  | .startTry side' _ => side' = side
  | .endRead _ => .read = side
  | .endWrite _ => .write = side

/-- Whether it is not a call of the other side. -/
def Choice.onSide (side : Side) : Choice → Bool
  | .lock side' => side' = side
  | .trylock side' => side' = side
  | _ => true

/-- What the code has checked of the word that it is about to exchange. -/
def Place.Fits : Place → Prop
  | .start side (.cas _ tmp_lock) => side.free tmp_lock
  | .start side (.waitCas _ tmp_lock) => ¬ side.free tmp_lock
  | .startTry side (.cas tmp_lock) => side.free tmp_lock
  | .endRead (.set tmp_lock) => rwlockXpReaderCount tmp_lock ≠ 0
  | .endRead (.cas tmp_lock) => rwlockXpReaderCount tmp_lock ≠ 0
  | .endWrite (.cas tmp_lock) => rwlockXpWaitingCount tmp_lock = 0
  | _ => True

/-- Whether a place is one of these, as a number. -/
def count (p : Place → Bool) (l : Place) : ℕ := if p l then 1 else 0

theorem count_le_one (p : Place → Bool) (l : Place) : count p l ≤ 1 := by
  unfold count
  split <;> decide

theorem count_congr {p : Place → Bool} {l l' : Place} (h : p l = p l') : count p l = count p l' := by
  rw [count, count, h]

theorem free_read {x : puint32} {R Q W : ℕ} (h : Packs x R Q W) : Side.read.free x ↔ W % 2 = 0 := by
  have hwriter := h.isWriter
  rw [Side.free, Bool.not_eq_true', ← Bool.not_eq_true, hwriter]
  omega

theorem free_write {x : puint32} {R Q W : ℕ} (h : Packs x R Q W) : Side.write.free x ↔ R = 0 ∧ W % 2 = 0 :=
  h.isClear

theorem compareAndExchange_cases {s s' : PRWLockXP} {oldval newval : puint32} {done failed l : Place}
    (h : compareAndExchange s oldval newval done failed = (s', l)) :
    (oldval = s.lock ∧ s' = { s with lock := newval } ∧ l = done) ∨ (s' = s ∧ l = failed) := by
  rw [compareAndExchange] at h
  split at h
  next heq =>
    cases h
    exact .inl ⟨heq.symm, rfl, rfl⟩
  next =>
    cases h
    exact .inr ⟨rfl, rfl⟩

/-- **What a step does**: the lock and the place of the thread after it. -/
inductive Effect (c : XpConfig ι) (i : ι) (a : Choice) : PRWLockXP → Place → Prop where
  | moves (event : Bool) (l : Place) : (∀ side, l.holds side = (c.loc i).holds side) → l.waits = (c.loc i).waits →
      (c.shared.event → event) → ((c.loc i).awake → l.awake) →
      (∀ side, (c.loc i).onSide side → (c.loc i = .idle → a.onSide side) → l.onSide side) → l.Fits →
      Effect c i a ⟨c.shared.lock, event⟩ l
  | wakes (event : Bool) (side : Side) : c.loc i = .start side .wait →
      Effect c i a ⟨c.shared.lock, event⟩ (.start side .waitedGet)
  | enters (side : Side) : side.free c.shared.lock → (∀ side, (c.loc i).holds side = false) →
      (c.loc i).waits = false →
      (∀ side', (c.loc i).onSide side' → side = side') →
      Effect c i a ⟨side.counter c.shared.lock, c.shared.event⟩ (.held side)
  | waits (side : Side) (n : ℕ) : c.loc i = .start side (.waitCas n c.shared.lock) → ¬ side.free c.shared.lock →
      Effect c i a ⟨rwlockXpSetWaiting c.shared.lock (rwlockXpWaitingCount c.shared.lock + 1), c.shared.event⟩
        (.start side .wait)
  | waited (side : Side) : c.loc i = .start side (.waitedCas c.shared.lock) →
      Effect c i a ⟨rwlockXpSetWaiting c.shared.lock (rwlockXpWaitingCount c.shared.lock - 1), c.shared.event⟩
        (.start side (.get 1))
  | endsRead : c.loc i = .endRead (.cas c.shared.lock) → rwlockXpReaderCount c.shared.lock ≠ 0 →
      Effect c i a ⟨rwlockXpSetReaders c.shared.lock (rwlockXpReaderCount c.shared.lock - 1), c.shared.event⟩ .idle
  | endsWrite : c.loc i = .endWrite (.cas c.shared.lock) → rwlockXpWaitingCount c.shared.lock = 0 →
      Effect c i a ⟨rwlockXpUnsetWriter c.shared.lock, c.shared.event⟩ .idle
  | leavesRead : c.loc i = .endRead .get → rwlockXpReaderCount c.shared.lock = 0 → Effect c i a c.shared .idle
  | leavesWrite : c.loc i = .endWrite .get → ¬ rwlockXpIsWriter c.shared.lock → Effect c i a c.shared .idle

variable {c : XpConfig ι} {i : ι} {a : Choice} {s : PRWLockXP} {l : Place}

namespace Effect

variable {l₀ : Place}

/-- Nothing changes but the place. -/
theorem stays (hloc : c.loc i = l₀) (hholds : ∀ side, l.holds side = l₀.holds side) (hwaits : l.waits = l₀.waits)
    (hawake : l₀.awake → l.awake) (hside : ∀ side, l₀.onSide side → (l₀ = .idle → a.onSide side) → l.onSide side)
    (hfits : l.Fits) : Effect c i a c.shared l := by
  subst hloc
  exact .moves c.shared.event l hholds hwaits id hawake hside hfits

theorem startXp {side : Side} {p : Start} (hfits : (c.loc i).Fits) (hloc : c.loc i = .start side p)
    (hs : startXp side a c.shared p = some (s, l)) : Effect c i a s l := by
  rw [hloc] at hfits
  cases p with
  | get n =>
    obtain ⟨-, hs⟩ := Option.ite_none_left_eq_some.1 hs
    split at hs
    next hfree =>
      cases hs
      exact stays hloc (fun _ => rfl) rfl (fun _ => rfl) (fun _ h _ => h) hfree
    next hfree =>
      split at hs
      next =>
        cases hs
        exact stays hloc (fun _ => rfl) rfl (fun _ => rfl) (fun _ h _ => h) trivial
      next =>
        cases hs
        exact stays hloc (fun _ => rfl) rfl (fun _ => rfl) (fun _ h _ => h) hfree
  | cas n tmp_lock =>
    obtain ⟨-, hs⟩ := Option.ite_none_left_eq_some.1 hs
    rcases compareAndExchange_cases (Option.some.inj hs) with ⟨rfl, rfl, rfl⟩ | ⟨rfl, rfl⟩
    · exact .enters side hfits (by rw [hloc]; exact fun _ => rfl) (by rw [hloc]; rfl)
        (by rw [hloc]; exact fun _ => of_decide_eq_true)
    · exact stays hloc (fun _ => rfl) rfl (fun _ => rfl) (fun _ h _ => h) trivial
  | waitCas n tmp_lock =>
    obtain ⟨-, hs⟩ := Option.ite_none_left_eq_some.1 hs
    rcases compareAndExchange_cases (Option.some.inj hs) with ⟨rfl, rfl, rfl⟩ | ⟨rfl, rfl⟩
    · exact .waits side n hloc hfits
    · exact stays hloc (fun _ => rfl) rfl (fun _ => rfl) (fun _ h _ => h) trivial
  | wait =>
    cases a with
    | go =>
      obtain ⟨-, hs⟩ := Option.ite_none_right_eq_some.1 hs
      cases hs
      exact .wakes false side hloc
    | fails =>
      cases hs
      exact .wakes _ side hloc
    | _ => cases hs
  | waitedGet =>
    obtain ⟨-, hs⟩ := Option.ite_none_left_eq_some.1 hs
    cases hs
    exact stays hloc (fun _ => rfl) rfl (fun _ => rfl) (fun _ h _ => h) trivial
  | waitedCas tmp_lock =>
    obtain ⟨-, hs⟩ := Option.ite_none_left_eq_some.1 hs
    rcases compareAndExchange_cases (Option.some.inj hs) with ⟨rfl, rfl, rfl⟩ | ⟨rfl, rfl⟩
    · exact .waited side hloc
    · exact stays hloc (fun _ => rfl) rfl (fun _ => rfl) (fun _ h _ => h) trivial

theorem startTryXp {side : Side} {p : StartTry} (hfits : (c.loc i).Fits) (hloc : c.loc i = .startTry side p)
    (hs : startTryXp side a c.shared p = some (s, l)) : Effect c i a s l := by
  rw [hloc] at hfits
  cases p with
  | get =>
    obtain ⟨-, hs⟩ := Option.ite_none_left_eq_some.1 hs
    split at hs
    next hfree =>
      cases hs
      exact stays hloc (fun _ => rfl) rfl nofun (fun _ h _ => h) hfree
    next =>
      cases hs
      exact stays hloc (fun _ => rfl) rfl nofun (fun _ _ _ => rfl) trivial
  | cas tmp_lock =>
    obtain ⟨-, hs⟩ := Option.ite_none_left_eq_some.1 hs
    rcases compareAndExchange_cases (Option.some.inj hs) with ⟨rfl, rfl, rfl⟩ | ⟨rfl, rfl⟩
    · exact .enters side hfits (by rw [hloc]; exact fun _ => rfl) (by rw [hloc]; rfl)
        (by rw [hloc]; exact fun _ => of_decide_eq_true)
    · exact stays hloc (fun _ => rfl) rfl nofun (fun _ _ _ => rfl) trivial

theorem setEvent {s₀ : PRWLockXP} (hloc : c.loc i = l₀) (hs : setEvent a c.shared = some s₀)
    (hholds : ∀ side, l.holds side = l₀.holds side) (hwaits : l.waits = l₀.waits)
    (hawake : l₀.awake → l.awake) (hside : ∀ side, l₀.onSide side → (l₀ = .idle → a.onSide side) → l.onSide side)
    (hfits : l.Fits) : Effect c i a s₀ l := by
  subst hloc
  cases a with
  | go =>
    cases hs
    exact .moves true l hholds hwaits (fun _ => rfl) hawake hside hfits
  | fails =>
    cases hs
    exact stays rfl hholds hwaits hawake hside hfits
  | _ => cases hs

theorem endReadXp {p : EndRead} (hfits : (c.loc i).Fits) (hloc : c.loc i = .endRead p)
    (hs : ppRwlockEndReadXp a c.shared p = some (s, l)) : Effect c i a s l := by
  rw [hloc] at hfits
  cases p with
  | get =>
    obtain ⟨-, hs⟩ := Option.ite_none_left_eq_some.1 hs
    split at hs
    next hzero =>
      cases hs
      exact .leavesRead hloc hzero
    next hcount =>
      split at hs
      next =>
        cases hs
        exact stays hloc (fun _ => rfl) rfl nofun (fun _ h _ => h) hcount
      next =>
        cases hs
        exact stays hloc (fun _ => rfl) rfl nofun (fun _ h _ => h) hcount
  | set tmp_lock =>
    obtain ⟨s₀, hset, hs⟩ := Option.map_eq_some_iff.1 hs
    cases hs
    exact setEvent hloc hset (fun _ => rfl) rfl nofun (fun _ h _ => h) hfits
  | cas tmp_lock =>
    obtain ⟨-, hs⟩ := Option.ite_none_left_eq_some.1 hs
    rcases compareAndExchange_cases (Option.some.inj hs) with ⟨rfl, rfl, rfl⟩ | ⟨rfl, rfl⟩
    · exact .endsRead hloc hfits
    · exact stays hloc (fun _ => rfl) rfl nofun (fun _ h _ => h) trivial

theorem endWriteXp {p : EndWrite} (hfits : (c.loc i).Fits) (hloc : c.loc i = .endWrite p)
    (hs : ppRwlockEndWriteXp a c.shared p = some (s, l)) : Effect c i a s l := by
  cases p with
  | get =>
    obtain ⟨-, hs⟩ := Option.ite_none_left_eq_some.1 hs
    split at hs
    next hnone =>
      cases hs
      exact .leavesWrite hloc (by rwa [Bool.not_eq_true', ← Bool.not_eq_true] at hnone)
    next =>
      split at hs
      next hwaiting =>
        cases hs
        exact stays hloc (fun _ => rfl) rfl nofun (fun _ h _ => h) hwaiting
      next =>
        cases hs
        exact stays hloc (fun _ => rfl) rfl nofun (fun _ h _ => h) trivial
  | set =>
    obtain ⟨s₀, hset, hs⟩ := Option.map_eq_some_iff.1 hs
    cases hs
    exact setEvent hloc hset (fun _ => rfl) rfl nofun (fun _ h _ => h) trivial
  | cas tmp_lock =>
    rw [hloc] at hfits
    obtain ⟨-, hs⟩ := Option.ite_none_left_eq_some.1 hs
    rcases compareAndExchange_cases (Option.some.inj hs) with ⟨rfl, rfl, rfl⟩ | ⟨rfl, rfl⟩
    · exact .endsWrite hloc hfits
    · exact stays hloc (fun _ => rfl) rfl nofun (fun _ h _ => h) trivial

/-- **Every step has one of the effects.** -/
theorem of_step (hfits : (c.loc i).Fits) (hstep : step i a c.shared (c.loc i) = some (s, l)) :
    Effect c i a s l := by
  cases hloc : c.loc i with
  | idle =>
    rw [hloc] at hstep
    cases a with
    | lock side =>
      cases hstep
      exact stays hloc (fun _ => rfl) rfl nofun (fun _ _ ha => ha rfl) trivial
    | trylock side =>
      cases hstep
      exact stays hloc (fun _ => rfl) rfl nofun (fun _ _ ha => ha rfl) trivial
    | _ => cases hstep
  | held side =>
    rw [hloc] at hstep
    cases side with
    | read =>
      obtain ⟨-, hs⟩ := Option.ite_none_right_eq_some.1 hstep
      cases hs
      exact stays hloc (fun _ => rfl) rfl nofun (fun _ h _ => h) trivial
    | write =>
      obtain ⟨-, hs⟩ := Option.ite_none_right_eq_some.1 hstep
      cases hs
      exact stays hloc (fun _ => rfl) rfl nofun (fun _ h _ => h) trivial
  | start side p =>
    rw [hloc, step_start] at hstep
    exact startXp hfits hloc hstep
  | startTry side p =>
    rw [hloc, step_startTry] at hstep
    exact startTryXp hfits hloc hstep
  | endRead p =>
    rw [hloc] at hstep
    exact endReadXp hfits hloc hstep
  | endWrite p =>
    rw [hloc] at hstep
    exact endWriteXp hfits hloc hstep

/-- **A thread stays on its side** until it makes a call of the other one. -/
theorem onSide {side : Side} (h : Effect c i a s l) (hi : (c.loc i).onSide side)
    (ha : c.loc i = .idle → a.onSide side) :
    l.onSide side := by
  cases h with
  | moves event l hholds hwaits hevent hawake hside hfits => exact hside side hi ha
  | wakes event side' hloc =>
    rw [hloc] at hi
    exact hi
  | enters side' hfree hout hnot hside => exact decide_eq_true (hside side hi)
  | waits side' n hloc hfree =>
    rw [hloc] at hi
    exact hi
  | waited side' hloc =>
    rw [hloc] at hi
    exact hi
  | _ => rfl

theorem fits (h : Effect c i a s l) : l.Fits := by
  cases h with
  | moves event l hholds hwaits hevent hawake hside hfits => exact hfits
  | _ => trivial

end Effect

theorem holds_of_onSide {side side' : Side} (hl : l.onSide side) (hne : side ≠ side') : l.holds side' = false := by
  cases l with
  | held side₀ =>
    obtain rfl : side₀ = side := of_decide_eq_true hl
    exact decide_eq_false hne
  | endRead p =>
    obtain rfl : Side.read = side := of_decide_eq_true hl
    exact decide_eq_false hne
  | endWrite p =>
    obtain rfl : Side.write = side := of_decide_eq_true hl
    exact decide_eq_false hne
  | _ => rfl

/-! ## The word and the threads -/

variable [Fintype ι]

/-- The word counts the threads. -/
structure Inv (c : XpConfig ι) : Prop where
  word : Packs c.shared.lock (c.tally (count (Place.holds .read))) (c.tally (count Place.waits))
    (c.tally (count (Place.holds .write)))
  exclusive : c.tally (count (Place.holds .write)) = 0 ∨
    c.tally (count (Place.holds .write)) = 1 ∧ c.tally (count (Place.holds .read)) = 0
  fits : ∀ i, (c.loc i).Fits

theorem present {p : Place → Bool} (hi : p (c.loc i)) : 0 < c.tally (count p) := by
  have hle := le_tally (count p) c i
  rw [count, if_pos hi] at hle
  exact hle

variable [DecidableEq ι]

namespace Inv

/-- The numbers are right again after a step of the thread `i`. -/
theorem set {R Q W : ℕ} (hs : Packs s.lock R Q W) (hexclusive : W = 0 ∨ W = 1 ∧ R = 0)
    (hfits : ∀ j, (c.loc j).Fits)
    (hl : l.Fits)
    (hR : R + count (Place.holds .read) (c.loc i) =
    c.tally (count (Place.holds .read)) + count (Place.holds .read) l)
    (hQ : Q + count Place.waits (c.loc i) = c.tally (count Place.waits) + count Place.waits l)
    (hW : W + count (Place.holds .write) (c.loc i) =
    c.tally (count (Place.holds .write)) + count (Place.holds .write) l) :
    Inv (c.set i s l) := by
  have hR' := tally_set (count (Place.holds .read)) c i s l
  have hQ' := tally_set (count Place.waits) c i s l
  have hW' := tally_set (count (Place.holds .write)) c i s l
  obtain rfl : R = (c.set i s l).tally (count (Place.holds .read)) := by omega
  obtain rfl : Q = (c.set i s l).tally (count Place.waits) := by omega
  obtain rfl : W = (c.set i s l).tally (count (Place.holds .write)) := by omega
  exact ⟨hs, hexclusive, forall_set (P := fun _ => Place.Fits) hl fun j _ => hfits j⟩

omit [DecidableEq ι] in
/-- The word counts a thread that reads. -/
theorem readerCount_ne_zero (h : Inv c) (hi : (c.loc i).holds .read) : rwlockXpReaderCount c.shared.lock ≠ 0 := by
  intro hzero
  have hcount := h.word.readerCount
  rw [show rwlockReaderCount c.shared.lock = 0 from hzero] at hcount
  exact Nat.ne_of_lt (present hi) hcount

omit [DecidableEq ι] in
/-- The word has the flag while a thread writes. -/
theorem isWriter (h : Inv c) (hi : (c.loc i).holds .write) : rwlockXpIsWriter c.shared.lock := by
  have hpresent := present hi
  have hexclusive := h.exclusive
  exact h.word.isWriter.2 (by omega)

/-- **Every step keeps the word right**, as long as the numbers fit. -/
theorem step (h : Inv c) (heffect : Effect c i a s l)
    (hread : (c.set i s l).tally (count (Place.holds .read)) < 2 ^ 15)
    (hwait : (c.set i s l).tally (count Place.waits) < 2 ^ 15) : Inv (c.set i s l) := by
  have hreads := tally_set (count (Place.holds .read)) c i s l
  have hwaits := tally_set (count Place.waits) c i s l
  cases heffect with
  | moves event l hholds hsame hevent hawake hside hl =>
    exact set h.word h.exclusive h.fits hl (by rw [count_congr (hholds .read)]) (by rw [count_congr hsame])
      (by rw [count_congr (hholds .write)])
  | wakes event side hloc =>
    exact set h.word h.exclusive h.fits trivial (by rw [hloc]; rfl) (by rw [hloc]; rfl) (by rw [hloc]; rfl)
  | enters side hfree hout hnot hside =>
    have hzero : ∀ side, count (Place.holds side) (c.loc i) = 0 := fun side => if_neg (by rw [hout]; decide)
    have hzero' : count Place.waits (c.loc i) = 0 := if_neg (by rw [hnot]; decide)
    cases side with
    | read =>
      rw [hzero] at hreads
      have hone : count (Place.holds .read) (.held .read) = 1 := rfl
      have hword := h.word.addReader (by omega)
      have hnone := (free_read h.word).1 hfree
      refine set hword (.inl ?_) h.fits trivial ?_ ?_ ?_
      · have hexclusive := h.exclusive
        omega
      · rw [hzero]; rfl
      · rw [hzero']; rfl
      · rw [hzero]; rfl
    | write =>
      obtain ⟨hnone, heven⟩ := (free_write h.word).1 hfree
      have hW : c.tally (count (Place.holds .write)) = 0 := by
        have hexclusive := h.exclusive
        omega
      have hword := h.word
      rw [hW] at hword
      refine set hword.setWriter (.inr ⟨rfl, hnone⟩) h.fits trivial ?_ ?_ ?_
      · rw [hzero]; rfl
      · rw [hzero']; rfl
      · rw [hzero, hW]; rfl
  | waits side n hloc hfree =>
    rw [hloc] at hwaits
    have hone : count Place.waits (.start side .wait) = 1 := rfl
    have hzero : count Place.waits (.start side (.waitCas n c.shared.lock)) = 0 := rfl
    refine set (h.word.addWriter (by omega)) h.exclusive h.fits trivial ?_ ?_ ?_
    · rw [hloc]; rfl
    · rw [hloc]; rfl
    · rw [hloc]; rfl
  | waited side hloc =>
    have hpresent : 0 < c.tally (count Place.waits) := present (i := i) (by rw [hloc]; rfl)
    refine set (h.word.subWriter hpresent) h.exclusive h.fits trivial ?_ ?_ ?_
    · rw [hloc]; rfl
    · rw [hloc]; exact Nat.sub_add_cancel hpresent
    · rw [hloc]; rfl
  | endsRead hloc hcount =>
    have hpresent : 0 < c.tally (count (Place.holds .read)) := present (i := i) (by rw [hloc]; rfl)
    refine set (h.word.subReader hpresent) (h.exclusive.imp_right fun hW => ⟨hW.1, ?_⟩) h.fits trivial ?_ ?_ ?_
    · omega
    · rw [hloc]; exact Nat.sub_add_cancel hpresent
    · rw [hloc]; rfl
    · rw [hloc]; rfl
  | endsWrite hloc hnone =>
    have hpresent : 0 < c.tally (count (Place.holds .write)) := present (i := i) (by rw [hloc]; rfl)
    have hW : c.tally (count (Place.holds .write)) = 1 := by
      have hexclusive := h.exclusive
      omega
    have hword := h.word
    rw [hW] at hword
    refine set hword.unsetWriter (.inl rfl) h.fits trivial ?_ ?_ ?_
    · rw [hloc]; rfl
    · rw [hloc]; rfl
    · rw [hloc, hW]; rfl
  | leavesRead hloc hzero =>
    exact absurd hzero (h.readerCount_ne_zero (i := i) (by rw [hloc]; rfl))
  | leavesWrite hloc hnone => exact absurd (h.isWriter (i := i) (by rw [hloc]; rfl)) hnone

variable (ι) in
omit [DecidableEq ι] in
theorem new : Inv (new ι) := by
  have hzero : ∀ p : Place → Bool, p .idle = false → (RwlockXp.new ι).tally (count p) = 0 := fun p hp =>
    tally_eq_zero fun _ => if_neg (by rw [show (RwlockXp.new ι).loc _ = .idle from rfl, hp]; decide)
  refine ⟨?_, .inl (hzero _ rfl), fun _ => trivial⟩
  rw [hzero _ rfl, hzero _ rfl, hzero _ rfl]
  exact Packs.zero

theorem of_reaches (hcard : Fintype.card ι < 2 ^ 15) (hreach : Reaches RwlockXp.step (RwlockXp.new ι) c) : Inv c :=
  hreach.invariant (fun _ _ _ _ _ h hstep => h.step (.of_step (h.fits _) hstep)
    ((tally_le_card (count_le_one _)).trans_lt hcard) ((tally_le_card (count_le_one _)).trans_lt hcard)) (new ι)

end Inv

/-! ## Mutual exclusion -/

/-- The number of the threads that hold the lock to read or to write. -/
def holders (side : Side) (c : XpConfig ι) : ℕ := (Finset.univ.filter fun i => (c.loc i).holds side).card

/-- **Mutual exclusion**: a thread that writes is alone, and the word has the numbers of those that hold the
    lock. -/
structure Exclusive (c : XpConfig ι) : Prop where
  alone : ∀ i j, i ≠ j → (c.loc i).holds .write → ¬ (c.loc j).holds .read ∧ ¬ (c.loc j).holds .write
  readers : (rwlockXpReaderCount c.shared.lock).toNat = holders .read c
  writer : (rwlockXpIsWriter c.shared.lock).toNat = holders .write c

omit [DecidableEq ι] in
theorem tally_holds (side : Side) (c : XpConfig ι) : c.tally (count (Place.holds side)) = holders side c :=
  tally_eq_card (fun l : Place => l.holds side = true) c

theorem Inv.exclusive_of (h : Inv c) : Exclusive c := by
  have hexclusive := h.exclusive
  refine ⟨?_, ?_, ?_⟩
  · intro i j hij hi
    have hwriting := present hi
    refine ⟨fun hj => ?_, fun hj => ?_⟩
    · have hreading := present hj
      omega
    · have htwo := add_le_tally hij (count (Place.holds .write)) c
      rw [count, count, if_pos hi, if_pos hj] at htwo
      omega
  · rw [← tally_holds]
    exact h.word.readerCount
  · have hwriter := h.word.isWriter
    rw [← tally_holds]
    cases hbit : rwlockXpIsWriter c.shared.lock with
    | false =>
      rw [hbit] at hwriter
      have hodd := mt hwriter.2 Bool.false_ne_true
      have hnone : c.tally (count (Place.holds .write)) = 0 := by omega
      rw [hnone]
      rfl
    | true =>
      rw [hbit] at hwriter
      have hodd := hwriter.1 rfl
      have hone : c.tally (count (Place.holds .write)) = 1 := by omega
      rw [hone]
      rfl

/-- **Every reachable state is exclusive.** -/
theorem rwlockXp_exclusive {ι : Type} [Fintype ι] [DecidableEq ι] (hcard : Fintype.card ι < 32768) {c : XpConfig ι}
    (hreach : Reaches step (new ι) c) : Exclusive c := (Inv.of_reaches hcard hreach).exclusive_of

/-- The exchange of a writer comes too late. -/
theorem rwlockXp_exclusive_two : ∃ c, Reaches step (new (Fin 2)) c ∧ (c.loc 0).holds .read ∧ Exclusive c :=
  have hrun : ∃ c, run step (new (Fin 2)) [(1, .trylock .write), (1, .go), (0, .lock .read), (0, .go),
    (0, .go), (1, .go)] =
    some c ∧ (c.loc 0).holds .read := ⟨_, rfl, rfl⟩
  hrun.elim fun c hc => ⟨c, ⟨_, hc.1⟩, hc.2, rwlockXp_exclusive (by decide) ⟨_, hc.1⟩⟩

end Plibsys.RwlockXp
