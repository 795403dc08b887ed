/-
  Atomic operations on memory that other threads use too (`patomic-c11.c`, `patomic-sim.c`).

  With the support of the compiler an operation is one of its own atomic operations.  Without it, it
  is a few plain accesses between `p_mutex_lock` and `p_mutex_unlock`, with one mutex for all of the
  memory.  The signed and the unsigned words of a width have the same bits.
-/
import Mathlib.Data.BitVec
import Plibsys.Lib.Critical
import Plibsys.Types

namespace Plibsys.Atomic

open Critical Interleaving Programs

/-- An `int`, or a word of the size of a pointer. -/
inductive Width where
  | int
  | pointer
  deriving DecidableEq, Repr

abbrev Width.bits : Width → ℕ
  | .int => 32
  | .pointer => 64

abbrev Memory := (w : Width) → ppointer → BitVec w.bits

def Memory.store (m : Memory) (w : Width) (atomic : ppointer) (val : BitVec w.bits) : Memory :=
  Function.update m w (Function.update (m w) atomic val)

inductive Result where
  | void
  | int (value : BitVec 32)
  | pointer (value : BitVec 64)
  | bool (value : Bool)
  deriving DecidableEq, Repr

def Width.result : (w : Width) → BitVec w.bits → Result
  | .int => .int
  | .pointer => .pointer

/-- The calls of `patomic.h`. -/
inductive Op where
  | intGet (atomic : ppointer)
  | intSet (atomic : ppointer) (val : BitVec 32)
  | intInc (atomic : ppointer)
  | intDecAndTest (atomic : ppointer)
  | intCompareAndExchange (atomic : ppointer) (oldval newval : BitVec 32)
  | intAdd (atomic : ppointer) (val : BitVec 32)
  | intAnd (atomic : ppointer) (val : BitVec 32)
  | intOr (atomic : ppointer) (val : BitVec 32)
  | intXor (atomic : ppointer) (val : BitVec 32)
  | pointerGet (atomic : ppointer)
  | pointerSet (atomic : ppointer) (val : BitVec 64)
  | pointerCompareAndExchange (atomic : ppointer) (oldval newval : BitVec 64)
  | pointerAdd (atomic : ppointer) (val : BitVec 64)
  | pointerAnd (atomic : ppointer) (val : BitVec 64)
  | pointerOr (atomic : ppointer) (val : BitVec 64)
  | pointerXor (atomic : ppointer) (val : BitVec 64)
  deriving DecidableEq, Repr

/-! ## The operations of the compiler -/

namespace C11

/-- `__atomic_load_4` and `__atomic_load_8`. -/
def atomicLoad (w : Width) (atomic : ppointer) (m : Memory) : BitVec w.bits × Memory := (m w atomic, m)

/-- `__atomic_store_4` and `__atomic_store_8`. -/
def atomicStore (w : Width) (atomic : ppointer) (val : BitVec w.bits) (m : Memory) : Memory := m.store w atomic val

/-- `__atomic_fetch_add` and the like. -/
def atomicFetch (w : Width) (f : BitVec w.bits → BitVec w.bits → BitVec w.bits) (atomic : ppointer)
    (val : BitVec w.bits) (m : Memory) : BitVec w.bits × Memory :=
  (m w atomic, m.store w atomic (f (m w atomic) val))

/-- `__atomic_compare_exchange_n`. -/
def atomicCompareExchange (w : Width) (atomic : ppointer) (oldval newval : BitVec w.bits) (m : Memory) :
    Bool × Memory :=
  if m w atomic = oldval then (true, m.store w atomic newval) else (false, m)

def get (w : Width) (atomic : ppointer) (m : Memory) : Result × Memory :=
  let (value, m) := atomicLoad w atomic m
  (w.result value, m)

def set (w : Width) (atomic : ppointer) (val : BitVec w.bits) (m : Memory) : Result × Memory :=
  (.void, atomicStore w atomic val m)

def compareAndExchange (w : Width) (atomic : ppointer) (oldval newval : BitVec w.bits) (m : Memory) :
    Result × Memory :=
  let (success, m) := atomicCompareExchange w atomic oldval newval m
  (.bool success, m)

def fetch (w : Width) (f : BitVec w.bits → BitVec w.bits → BitVec w.bits) (atomic : ppointer)
    (val : BitVec w.bits) (m : Memory) : Result × Memory :=
  let (oldval, m) := atomicFetch w f atomic val m
  (w.result oldval, m)

def pAtomicIntGet := get .int

def pAtomicIntSet := set .int

def pAtomicIntInc (atomic : ppointer) (m : Memory) : Result × Memory :=
  let (_, m) := atomicFetch .int (· + ·) atomic 1 m
  (.void, m)

def pAtomicIntDecAndTest (atomic : ppointer) (m : Memory) : Result × Memory :=
  let (oldval, m) := atomicFetch .int (· - ·) atomic 1 m
  (.bool (oldval == 1), m)

def pAtomicIntCompareAndExchange := compareAndExchange .int

def pAtomicIntAdd := fetch .int (· + ·)

def pAtomicIntAnd := fetch .int (· &&& ·)

def pAtomicIntOr := fetch .int (· ||| ·)

def pAtomicIntXor := fetch .int (· ^^^ ·)

def pAtomicPointerGet := get .pointer

def pAtomicPointerSet := set .pointer

def pAtomicPointerCompareAndExchange := compareAndExchange .pointer

def pAtomicPointerAdd := fetch .pointer (· + ·)

def pAtomicPointerAnd := fetch .pointer (· &&& ·)

def pAtomicPointerOr := fetch .pointer (· ||| ·)

def pAtomicPointerXor := fetch .pointer (· ^^^ ·)

def call : Op → Memory → Result × Memory
  | .intGet atomic => pAtomicIntGet atomic
  | .intSet atomic val => pAtomicIntSet atomic val
  | .intInc atomic => pAtomicIntInc atomic
  | .intDecAndTest atomic => pAtomicIntDecAndTest atomic
  | .intCompareAndExchange atomic oldval newval => pAtomicIntCompareAndExchange atomic oldval newval
  | .intAdd atomic val => pAtomicIntAdd atomic val
  | .intAnd atomic val => pAtomicIntAnd atomic val
  | .intOr atomic val => pAtomicIntOr atomic val
  | .intXor atomic val => pAtomicIntXor atomic val
  | .pointerGet atomic => pAtomicPointerGet atomic
  | .pointerSet atomic val => pAtomicPointerSet atomic val
  | .pointerCompareAndExchange atomic oldval newval => pAtomicPointerCompareAndExchange atomic oldval newval
  | .pointerAdd atomic val => pAtomicPointerAdd atomic val
  | .pointerAnd atomic val => pAtomicPointerAnd atomic val
  | .pointerOr atomic val => pAtomicPointerOr atomic val
  | .pointerXor atomic val => pAtomicPointerXor atomic val

end C11

/-! ## The operations under the mutex -/

/-- One access to the memory. -/
inductive Access where
  | load (w : Width) (atomic : ppointer)
  | store (w : Width) (atomic : ppointer) (val : BitVec w.bits)

abbrev Access.Reply : Access → Type
  | .load w _ => BitVec w.bits
  | .store _ _ _ => Unit

def access : (c : Access) → Memory → c.Reply × Memory
  | .load w atomic, m => (m w atomic, m)
  | .store w atomic val, m => ((), m.store w atomic val)

namespace Sim

/-- What a function does between `p_mutex_lock` and `p_mutex_unlock`. -/
abbrev Locked := Prog Access Access.Reply Result

def load (w : Width) (atomic : ppointer) : Prog Access Access.Reply (BitVec w.bits) :=
  Prog.perform (Access.load w atomic)

def store (w : Width) (atomic : ppointer) (val : BitVec w.bits) : Prog Access Access.Reply Unit :=
  Prog.perform (Access.store w atomic val)

def get (w : Width) (atomic : ppointer) : Locked := do
  let value ← load w atomic
  return w.result value

def set (w : Width) (atomic : ppointer) (val : BitVec w.bits) : Locked := do
  store w atomic val
  return .void

def compareAndExchange (w : Width) (atomic : ppointer) (oldval newval : BitVec w.bits) : Locked := do
  let value ← load w atomic
  if value = oldval then
    store w atomic newval
    return .bool true
  else
    return .bool false

def fetch (w : Width) (f : BitVec w.bits → BitVec w.bits → BitVec w.bits) (atomic : ppointer)
    (val : BitVec w.bits) : Locked := do
  let oldval ← load w atomic
  store w atomic (f oldval val)
  return w.result oldval

def pAtomicIntGet := get .int

def pAtomicIntSet := set .int

def pAtomicIntInc (atomic : ppointer) : Locked := do
  let value ← load .int atomic
  store .int atomic (value + 1)
  return .void

def pAtomicIntDecAndTest (atomic : ppointer) : Locked := do
  let value ← load .int atomic
  store .int atomic (value - 1)
  return .bool (value - 1 == 0)

def pAtomicIntCompareAndExchange := compareAndExchange .int

def pAtomicIntAdd := fetch .int (· + ·)

def pAtomicIntAnd := fetch .int (· &&& ·)

def pAtomicIntOr := fetch .int (· ||| ·)

def pAtomicIntXor := fetch .int (· ^^^ ·)

def pAtomicPointerGet := get .pointer

def pAtomicPointerSet := set .pointer

def pAtomicPointerCompareAndExchange := compareAndExchange .pointer

def pAtomicPointerAdd := fetch .pointer (· + ·)

def pAtomicPointerAnd := fetch .pointer (· &&& ·)

def pAtomicPointerOr := fetch .pointer (· ||| ·)

def pAtomicPointerXor := fetch .pointer (· ^^^ ·)

def call : Op → Locked
  | .intGet atomic => pAtomicIntGet atomic
  | .intSet atomic val => pAtomicIntSet atomic val
  | .intInc atomic => pAtomicIntInc atomic
  | .intDecAndTest atomic => pAtomicIntDecAndTest atomic
  | .intCompareAndExchange atomic oldval newval => pAtomicIntCompareAndExchange atomic oldval newval
  | .intAdd atomic val => pAtomicIntAdd atomic val
  | .intAnd atomic val => pAtomicIntAnd atomic val
  | .intOr atomic val => pAtomicIntOr atomic val
  | .intXor atomic val => pAtomicIntXor atomic val
  | .pointerGet atomic => pAtomicPointerGet atomic
  | .pointerSet atomic val => pAtomicPointerSet atomic val
  | .pointerCompareAndExchange atomic oldval newval => pAtomicPointerCompareAndExchange atomic oldval newval
  | .pointerAdd atomic val => pAtomicPointerAdd atomic val
  | .pointerAnd atomic val => pAtomicPointerAnd atomic val
  | .pointerOr atomic val => pAtomicPointerOr atomic val
  | .pointerXor atomic val => pAtomicPointerXor atomic val

end Sim

section
variable (w : Width) (f : BitVec w.bits → BitVec w.bits → BitVec w.bits) (atomic : ppointer)
  (val oldval newval : BitVec w.bits) (m : Memory)

theorem exec_compareAndExchange :
    (Sim.compareAndExchange w atomic oldval newval).exec access m =
      some (C11.compareAndExchange w atomic oldval newval m) := by
  have hload : (Sim.load w atomic).exec access m = some (m w atomic, m) := rfl
  unfold C11.compareAndExchange C11.atomicCompareExchange Sim.compareAndExchange
  rw [Prog.exec_bind_of hload]
  by_cases h : m w atomic = oldval
  · rw [if_pos h, if_pos h]
    rfl
  · rw [if_neg h, if_neg h]
    rfl

/-- It is the same to test the old value and the new one. -/
theorem exec_pAtomicIntDecAndTest :
    (Sim.pAtomicIntDecAndTest atomic).exec access m = some (C11.pAtomicIntDecAndTest atomic m) := by
  have htest : (m .int atomic - 1 == 0) = (m .int atomic == 1) := by
    rw [Bool.eq_iff_iff, beq_iff_eq, beq_iff_eq, sub_eq_zero]
  have hexec : (Sim.pAtomicIntDecAndTest atomic).exec access m =
      some (.bool (m .int atomic - 1 == 0), m.store .int atomic (m .int atomic - 1)) := rfl
  rw [hexec, htest]
  rfl

end

/-- Alone, an operation under the mutex does what the one of the compiler does. -/
theorem exec_call (op : Op) (m : Memory) : (Sim.call op).exec access m = some (C11.call op m) := by
  cases op with
  | intDecAndTest atomic => exact exec_pAtomicIntDecAndTest atomic m
  | intCompareAndExchange atomic oldval newval => exact exec_compareAndExchange .int atomic oldval newval m
  | pointerCompareAndExchange atomic oldval newval => exact exec_compareAndExchange .pointer atomic oldval newval m
  | _ => rfl

/-! ## Threads -/

/-- `pp_atomic_mutex`. -/
def mutex : Lock Bool where
  free := false
  taken := true
  tryLock locked := if locked then none else some true
  unlock _ := false
  tryLock_free := rfl
  tryLock_taken := rfl
  unlock_taken := rfl

section
variable {ι : Type}

/-- A step of a thread that uses the operations under the mutex: locking it, one access, or unlocking it. -/
def simStep : ι → Move Op Result → Guarded Bool Memory → Place Op Result Access Access.Reply →
    Option (Guarded Bool Memory × Place Op Result Access Access.Reply) :=
  step mutex access Sim.call fun _ => none

/-- A step of a thread that uses the operations of the compiler. -/
def c11Step : ι → Move Op Result → Memory → Outline Op Result → Option (Memory × Outline Op Result) :=
  atomicStep (fun op m => some (C11.call op m)) fun _ => none

theorem c11Step_eq : c11Step (ι := ι) = atomicStep (fun op m => (Sim.call op).exec access m) fun _ => none := by
  unfold c11Step
  congr
  funext op m
  exact (exec_call op m).symm

/-- What a step with the operations of the compiler may be: a call, an operation, or a return. -/
theorem c11Step_cases {i : ι} {x : Move Op Result} {m m' : Memory} {l l' : Outline Op Result}
    (h : c11Step i x m l = some (m', l')) :
    (∃ op, x = .call op ∧ l = .idle ∧ m' = m ∧ l' = .called op) ∨
      (∃ op, x = .work ∧ l = .called op ∧ m' = (C11.call op m).2 ∧ l' = .done (C11.call op m).1) ∨
      ∃ r, x = .ret r ∧ l = .done r ∧ m' = m ∧ l' = .idle := by
  cases l <;> cases x <;>
    simp only [c11Step, atomicStep, reduceCtorEq, Option.some.injEq, Prod.mk.injEq, Option.map_some,
      Option.map_none]
      at h
  case idle.call op =>
    obtain ⟨rfl, rfl⟩ := h
    exact .inl ⟨op, rfl, rfl, rfl, rfl⟩
  case called.work op =>
    obtain ⟨rfl, rfl⟩ := h
    exact .inr (.inl ⟨op, rfl, rfl, rfl, rfl⟩)
  case done.ret r r' =>
    split_ifs at h with hr
    cases h
    exact .inr (.inr ⟨r', rfl, by rw [hr], rfl, rfl⟩)

variable [DecidableEq ι] {m : Memory} {xs : List (ι × Move Op Result)}
  {c : Config ι (Guarded Bool Memory) (Place Op Result Access Access.Reply)}

/-- A run with the operations of the compiler looks the same. -/
theorem exists_c11Run (hrun : run simStep (start mutex m) xs = some c) :
    ∃ ys d, run c11Step (atomicStart m) ys = some d ∧ history Move.event ys = history Move.event xs ∧
      Follows mutex access Sim.call c d := by
  rw [c11Step_eq]
  exact linearizable hrun

/-- **The operations under the mutex are atomic**: in every interleaving of their single accesses, the calls, the
    returns and the results are those of operations of the compiler, and so is the memory when nobody is in a
    call. -/
theorem patomicSim_linearizable (hrun : run simStep (start mutex m) xs = some c) :
    ∃ ys d, run c11Step (atomicStart m) ys = some d ∧ history Move.event ys = history Move.event xs ∧
      (∀ i, d.loc i = (c.loc i).outline) ∧ ((∀ i, ¬ (c.loc i).Inside) → c.shared.value = d.shared) := by
  obtain ⟨ys, d, hys, hhistory, hfollows⟩ := exists_c11Run hrun
  exact ⟨ys, d, hys, hhistory, hfollows.outline, hfollows.guards.quiet⟩

/-- Two threads add to the same number; the second one finds the mutex taken, and tries again. -/
theorem patomicSim_linearizable_add :
    let xs : List (Fin 2 × Move Op Result) :=
      [(0, .call (.intAdd 8 1)), (1, .call (.intAdd 8 2)), (0, .work), (0, .work), (1, .work), (0, .work),
      (0, .work),
        (1, .work), (1, .work), (1, .work), (1, .work), (1, .ret (.int 1)), (0, .ret (.int 0))]
    ∃ ys d, run c11Step (atomicStart fun _ _ => 0) ys = some d ∧ history Move.event ys = history Move.event xs ∧
      d.shared .int 8 = 3 := by
  intro xs
  obtain ⟨c, hrun, hidle, hvalue⟩ : ∃ c, run simStep (start mutex fun _ _ => 0) xs = some c ∧
      (c.loc 0 = .idle ∧ c.loc 1 = .idle) ∧ c.shared.value .int 8 = 3 := ⟨_, rfl, ⟨rfl, rfl⟩, rfl⟩
  obtain ⟨ys, d, hys, hhistory, -, hquiet⟩ := patomicSim_linearizable hrun
  have hout : ∀ i, ¬ (c.loc i).Inside := by
    rw [Fin.forall_fin_two, hidle.1, hidle.2]
    exact ⟨id, id⟩
  exact ⟨ys, d, hys, hhistory, hquiet hout ▸ hvalue⟩

end

end Plibsys.Atomic
