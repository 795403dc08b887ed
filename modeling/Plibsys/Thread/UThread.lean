/-
  Threads and the objects that stand for them (`puthread.c`, `puthread-posix.c`).

  An object is shared by the thread it stands for, through its TLS slot, and by the callers that
  hold a reference.  Allocation, the creation of the thread and the storing of the TLS slot may fail;
  the objects are numbered in the order of their allocation.
-/
import Mathlib.Data.Multiset.Count
import Plibsys.Types
import Plibsys.Lib.Interleaving

namespace Plibsys

/-- What is read and written of a `PUThreadBase`. -/
structure PUThreadBase where
  ref_count : pint
  ours : Bool
  joinable : Bool
  func : ppointer
  data : ppointer

/-- Who owns a reference: a caller of the library, or the thread that the object stands for.  While
    nobody does, the object belongs to the call that allocates or frees it.  The reference of a thread is
    `lost` if the object could not be stored in its slot: nobody gives it back. -/
inductive Owner (ι : Type) where
  | caller (i : ι)
  | self (i : ι)
  | busy (i : ι)
  | lost
  deriving DecidableEq

/-- What the threads share.  `started` gives the argument with which a thread was started, `NULL` for a
    thread from outside of the library.  The last four fields record: how often an object was freed,
    who owns the references, what its creator has stored before it released the spinlock, and what
    the new threads have read, each with what its creator had stored by then. -/
structure UThreads (ι : Type) where
  pp_uthread_new_spin : Option ι
  nextObject : ppointer
  objects : ppointer → PUThreadBase
  pp_uthread_specific_data : ι → ppointer
  started : ι → Option ppointer
  frees : ppointer → ℕ
  owners : ppointer → Multiset (Owner ι)
  given : ppointer → Option (ppointer × ppointer)
  called : List ((ppointer × ppointer) × Option (ppointer × ppointer))

/-- Where a thread is: in code of its own (`running`), or in one of the functions. -/
inductive UThreadPlace where
  | unborn
  | running
  | createLock (func data : ppointer) (joinable : Bool)
  | createMalloc (func data : ppointer) (joinable : Bool)
  | createThread (thread func data : ppointer) (joinable : Bool)
  | createFree (thread : ppointer)
  | createUnlock
  | createStore (thread func data : ppointer) (fields : List (PUThreadBase → PUThreadBase))
  | proxySet (thread : ppointer)
  | proxyLock (thread : ppointer)
  | proxyUnlock (thread : ppointer)
  | proxyCall (thread : ppointer)
  | currentMalloc
  | currentCount (thread : ppointer)
  | currentSet (thread : ppointer)
  | unrefFree (thread : ppointer) (exits : Bool)
  | exiting
  | cleanup (thread : ppointer)
  | gone

/-- What a thread does next in code of its own, or what `pthread_create` does.  Allocations and
    `p_uthread_set_local` fail with the choice `fail`. -/
inductive UThreadChoice (ι : Type) where
  | create (func data : ppointer) (joinable : Bool)
  | current
  | ref (thread : ppointer)
  | unref (thread : ppointer)
  | give (thread : ppointer) (other : ι)
  | exit
  | start (child : Option ι)
  | fail
  | proceed

/-- The object of which a caller takes another reference. -/
def UThreadChoice.refs {ι : Type} : UThreadChoice ι → Option ppointer
  | .ref p => some p
  | _ => none

/-- The fields in the order in which `p_uthread_create_full` stores them. -/
def createFields (func data : ppointer) (joinable : Bool) : List (PUThreadBase → PUThreadBase) :=
  [fun o => { o with ref_count := 2 }, fun o => { o with ours := true }, fun o => { o with joinable := joinable },
    fun o => { o with func := func }, fun o => { o with data := data }]

variable {ι : Type} [DecidableEq ι]

namespace UThreads

def setOwners (s : UThreads ι) (p : ppointer) (m : Multiset (Owner ι)) : UThreads ι :=
  { s with owners := Function.update s.owners p m }

def modify (s : UThreads ι) (p : ppointer) (f : PUThreadBase → PUThreadBase) : UThreads ι :=
  { s with objects := Function.update s.objects p (f (s.objects p)) }

/-- `p_malloc0`, by the thread `i`. -/
def malloc (s : UThreads ι) (i : ι) (joinable : Bool) : UThreads ι :=
  { s.setOwners s.nextObject {.busy i} with
    nextObject := s.nextObject + 1
    objects := Function.update s.objects s.nextObject ⟨0, false, joinable, NULL, NULL⟩ }

/-- `p_free`. -/
def free (s : UThreads ι) (p : ppointer) : UThreads ι :=
  { s.setOwners p 0 with frees := Function.update s.frees p (s.frees p + 1) }

/-- `pthread_create` has started the thread `k`. -/
def start (s : UThreads ι) (i k : ι) (p : ppointer) : UThreads ι :=
  { s.setOwners p {.self k, .caller i} with started := Function.update s.started k (some p) }

/-- The call that made the object has stored its counter and all other fields. -/
def publish (s : UThreads ι) (p func data : ppointer) : UThreads ι :=
  { s with given := Function.update s.given p (some (func, data)) }

def setSlot (s : UThreads ι) (i : ι) (p : ppointer) : UThreads ι :=
  { s with pp_uthread_specific_data := Function.update s.pp_uthread_specific_data i p }

/-- `p_spinlock_lock`.  Without a spinlock (`spin = false`, when `p_uthread_init` could not allocate it) it
    returns at once. -/
def lock (spin : Bool) (s : UThreads ι) (i : ι) : Option (UThreads ι) :=
  if spin = false then some s
  else if s.pp_uthread_new_spin = none then some { s with pp_uthread_new_spin := some i } else none

/-- The thread `i` goes on without its reference. -/
def lose (s : UThreads ι) (i : ι) (p : ppointer) : UThreads ι :=
  s.setOwners p (.lost ::ₘ (s.owners p).erase (.self i))

/-- `p_atomic_int_inc` in `p_uthread_ref`. -/
def ref (s : UThreads ι) (i : ι) (p : ppointer) : UThreads ι :=
  (s.modify p fun o => { o with ref_count := o.ref_count + 1 }).setOwners p (.caller i ::ₘ s.owners p)

/-- `p_atomic_int_dec_and_test` in `p_uthread_unref`, for the reference of `owner`; the call of the thread
    `i` goes on to free the object if it was the last one. -/
def unref (s : UThreads ι) (i : ι) (p : ppointer) (owner : Owner ι) : UThreads ι :=
  (s.modify p fun o => { o with ref_count := o.ref_count - 1 }).setOwners p
    (if (s.objects p).ref_count = 1 then {.busy i} else (s.owners p).erase owner)

end UThreads

/-- A thread in code of its own calls the library.  It gives back and passes on only references that
    it owns; it may also take one to the object it stands for (`p_uthread_current`), and to an object that
    is not in its slot for a failure. -/
def uthreadCall (i : ι) (s : UThreads ι) : UThreadChoice ι → Option (UThreads ι × UThreadPlace)
  | .create func data joinable => some (s, if func = NULL then .running else .createLock func data joinable)
  | .current => some (s, if s.pp_uthread_specific_data i = NULL then .currentMalloc else .running)
  | .ref p =>
    if .caller i ∈ s.owners p ∨ s.pp_uthread_specific_data i = p ∧ p ≠ NULL ∨ .lost ∈ s.owners p then
      some (s.ref i p, .running)
    else none
  | .unref p =>
    if .caller i ∈ s.owners p then
      some (s.unref i p (.caller i), if (s.objects p).ref_count = 1 then .unrefFree p false else .running)
    else none
  | .give p j =>
    if .caller i ∈ s.owners p then
      some (s.setOwners p (.caller j ::ₘ (s.owners p).erase (.caller i)), .running)
    else none
  | .exit => some (s, .exiting)
  | _ => none

/-- One atomic step of a thread. -/
def uthreadStep (spin : Bool) (i : ι) (choice : UThreadChoice ι) (s : UThreads ι) :
    UThreadPlace → Option (UThreads ι × UThreadPlace)
  | .unborn => (s.started i).map fun p => (s, .proxySet p)
  | .running => uthreadCall i s choice
  -- p_uthread_create_full
  | .createLock func data joinable => (s.lock spin i).map fun s => (s, .createMalloc func data joinable)
  | .createMalloc func data joinable =>
    match choice with
    | .fail => some (s, .createUnlock)
    | _ => some (s.malloc i joinable, .createThread s.nextObject func data joinable)
  | .createThread p func data joinable =>
    match choice with
    | .start none => some (s, .createFree p)
    | .start (some k) =>
      if s.started k = none then some (s.start i k p, .createStore p func data (createFields func data joinable))
      else none
    | _ => none
  | .createFree p => some (s.free p, .createUnlock)
  | .createUnlock => some ({ s with pp_uthread_new_spin := none }, .running)
  | .createStore p func data (field :: fields) => some (s.modify p field, .createStore p func data fields)
  | .createStore p func data [] =>
    some ({ s.publish p func data with pp_uthread_new_spin := none }, .running)
  -- pp_uthread_proxy, which does not know whether p_uthread_set_local has failed
  | .proxySet p =>
    match choice with
    | .fail => some (s, .proxyLock p)
    | _ => some (s.setSlot i p, .proxyLock p)
  | .proxyLock p => (s.lock spin i).map fun s => (s, .proxyUnlock p)
  | .proxyUnlock p => some ({ s with pp_uthread_new_spin := none }, .proxyCall p)
  | .proxyCall p =>
    some ({ (if s.pp_uthread_specific_data i = p then s else s.lose i p) with
      called := (((s.objects p).func, (s.objects p).data), s.given p) :: s.called }, .running)
  -- p_uthread_current
  | .currentMalloc =>
    match choice with
    | .fail => some (s, .running)
    | _ => some (s.malloc i false, .currentCount s.nextObject)
  | .currentCount p =>
    some (((s.modify p fun o => { o with ref_count := 1 }).setOwners p {.self i}).publish p NULL NULL,
      .currentSet p)
  | .currentSet p =>
    match choice with
    | .fail => some (s.lose i p, .running)
    | _ => some (s.setSlot i p, .running)
  -- p_uthread_unref; both kinds of objects are freed here
  | .unrefFree p exits => some (s.free p, if exits then .exiting else .running)
  -- the destructor of the TLS slot runs as long as the slot is not empty
  | .exiting =>
    if s.pp_uthread_specific_data i = NULL then some (s, .gone)
    else some (s.setSlot i NULL, .cleanup (s.pp_uthread_specific_data i))
  | .cleanup p =>
    some (s.unref i p (.self i), if (s.objects p).ref_count = 1 then .unrefFree p true else .exiting)
  | .gone => none

/-- The threads of the program before the library has created one; `outside` are those that run. -/
def uthreadStart (outside : ι → Bool) : Interleaving.Config ι (UThreads ι) UThreadPlace where
  shared := {
    pp_uthread_new_spin := none
    nextObject := 1
    objects _ := ⟨0, false, false, NULL, NULL⟩
    pp_uthread_specific_data _ := NULL
    started i := if outside i then some NULL else none
    frees _ := 0
    owners _ := 0
    given _ := none
    called := [] }
  loc i := if outside i then .running else .unborn

end Plibsys
