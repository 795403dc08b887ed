/-
  Thread-local storage on Windows (`puthread-win.c`).

  The index of a key is allocated at its first use, under a mutex.  Before it is stored in the key, the
  function that frees the values of the key is put on a list; a thread goes through the list, without the
  mutex, when it ends.

  Each thread keeps a log of what becomes of its values:
  * `view`: the value that the thread sees under a key;
  * `Coherent`: each value read was the one seen;
  * `Balanced`: each value stored is in place, or it was destroyed or dropped, once.
-/
import Mathlib.Tactic.SplitIfs
import Plibsys.Lib.Interleaving
import Plibsys.Types

namespace Plibsys

open Interleaving

namespace Windows

abbrev DWORD := UInt32

def TLS_OUT_OF_INDEXES : DWORD := 0xFFFFFFFF

/-- `PUThreadDestructor`; a pointer to one is the list of those from there on.  The key is for the log only. -/
structure TlsDestructor (κ : Type) where
  key_idx : DWORD
  free_func : ppointer
  key : κ
  deriving DecidableEq, Repr

/-- `key_idx` of each `PUThreadKey`, and what the threads share: the indexes in use, the value that each
    thread has at each index, `pp_uthread_tls_destructors` and the owner of `pp_uthread_tls_mutex`. -/
structure TlsShared (ι κ : Type) where
  keyIdx : κ → DWORD
  allocated : DWORD → Bool
  values : ι → DWORD → ppointer
  destructors : List (TlsDestructor κ)
  mutex : Option ι

/-- The calls of a thread on a `PUThreadKey`. -/
inductive KeyCall (κ : Type) where
  | getLocal (k : κ)
  | setLocal (k : κ) (value : ppointer)
  | replaceLocal (k : κ) (value : ppointer)
  deriving DecidableEq, Repr

def KeyCall.key {κ : Type} : KeyCall κ → κ
  | .getLocal k | .setLocal k _ | .replaceLocal k _ => k

/-- Where a thread is in `pp_uthread_get_tls_key`, and from `use` on in the function that has called it. -/
inductive KeyPlace (κ : Type) where
  | get
  | lock
  | check
  | alloc
  | malloc (idx : DWORD)
  | head (idx : DWORD)
  | swap (idx : DWORD) (next : List (TlsDestructor κ))
  | free (idx : DWORD)
  | store (idx : DWORD)
  | unlock (r : DWORD)
  | use (r : DWORD)
  | destroy (idx : DWORD) (old : ppointer)
  | assign (idx : DWORD) (destroyed : Bool)
  deriving DecidableEq, Repr

/-- Where a thread is in `p_uthread_win32_thread_detach`. -/
inductive DetachPlace (κ : Type) where
  | list
  | walk (was_called : Bool) (destr : List (TlsDestructor κ))
  | clear (d : TlsDestructor κ) (next : List (TlsDestructor κ)) (value : ppointer)
  | destroy (d : TlsDestructor κ) (next : List (TlsDestructor κ)) (value : ppointer)
  | callback (next : List (TlsDestructor κ))
  | finished
  deriving DecidableEq, Repr

/-- What became of the values of a thread. -/
inductive TlsEvent (κ : Type) where
  | stored (k : κ) (value : ppointer)
  | dropped (k : κ) (value : ppointer)
  | destroyed (k : κ) (free_func value : ppointer)
  | cleared (k : κ)
  | got (k : κ) (value : ppointer)
  deriving DecidableEq, Repr

/-- A thread with the calls that it is in; the last event comes first. -/
structure TlsThread (κ : Type) where
  call : Option (KeyCall κ × KeyPlace κ)
  detach : Option (DetachPlace κ)
  log : List (TlsEvent κ)

/-- What a thread does next, with the answer of the system. -/
inductive TlsMove (κ : Type) where
  | call (c : KeyCall κ)
  | detach
  | next
  | tlsAlloc (idx : DWORD)
  | answer (ok : Bool)
  deriving DecidableEq, Repr

section
variable {ι κ : Type} [DecidableEq ι] [DecidableEq κ] (freeFunc : κ → ppointer) (i : ι) (s : TlsShared ι κ)

/-- `TlsSetValue`. -/
def TlsShared.setValue (idx : DWORD) (value : ppointer) : TlsShared ι κ :=
  { s with values := Function.update s.values i (Function.update (s.values i) idx value) }

/-- `TlsAlloc` has found the index free; all threads have `NULL` there. -/
def TlsShared.alloc (idx : DWORD) : TlsShared ι κ :=
  { s with
    allocated := Function.update s.allocated idx true
    values := fun j => Function.update (s.values j) idx NULL }

/-- One atomic step of `pp_uthread_get_tls_key`; there is none while another thread has the mutex. -/
def ppUthreadGetTlsKey (k : κ) : TlsMove κ → KeyPlace κ → Option (TlsShared ι κ × KeyPlace κ)
  | _, .get => some (s, if s.keyIdx k ≠ TLS_OUT_OF_INDEXES then .use (s.keyIdx k) else .lock)
  | _, .lock => if s.mutex = none then some ({ s with mutex := some i }, .check) else none
  | _, .check => some (s, if s.keyIdx k = TLS_OUT_OF_INDEXES then .alloc else .unlock (s.keyIdx k))
  | .tlsAlloc idx, .alloc =>
    if idx = TLS_OUT_OF_INDEXES then some (s, .unlock TLS_OUT_OF_INDEXES)
    else if s.allocated idx then none
    else some (s.alloc idx, if freeFunc k ≠ NULL then .malloc idx else .store idx)
  | .answer ok, .malloc idx => some (s, if ok then .head idx else .free idx)
  | _, .head idx => some (s, .swap idx s.destructors)
  | _, .swap idx next =>
    if s.destructors = next then some ({ s with destructors := ⟨idx, freeFunc k, k⟩ :: next }, .store idx)
    else some (s, .free idx)
  | .answer ok, .free idx =>
    some ({ s with allocated := Function.update s.allocated idx !ok }, .unlock TLS_OUT_OF_INDEXES)
  | _, .store idx => some ({ s with keyIdx := Function.update s.keyIdx k idx }, .unlock idx)
  | _, .unlock r => some ({ s with mutex := none }, .use r)
  | _, _ => none

/-- A value is overwritten. -/
def drop (k : κ) (old : ppointer) (log : List (TlsEvent κ)) : List (TlsEvent κ) :=
  if old = NULL then log else .dropped k old :: log

/-- One step of `p_uthread_get_local`, `p_uthread_set_local` or `p_uthread_replace_local`, behind
    `pp_uthread_get_tls_key`; at the end there is no place. -/
def useStep (log : List (TlsEvent κ)) : KeyCall κ → KeyPlace κ →
    Option (TlsShared ι κ × Option (KeyPlace κ) × List (TlsEvent κ))
  | .getLocal k, .use r => some (s, none, .got k (if r = TLS_OUT_OF_INDEXES then NULL else s.values i r) :: log)
  | .setLocal k value, .use r =>
    if r ≠ TLS_OUT_OF_INDEXES then some (s.setValue i r value, none, .stored k value :: drop k (s.values i r) log)
    else some (s, none, log)
  | .replaceLocal k _, .use r =>
    if r = TLS_OUT_OF_INDEXES then some (s, none, log)
    else if s.values i r ≠ NULL ∧ freeFunc k ≠ NULL then some (s, some (.destroy r (s.values i r)), log)
    else some (s, some (.assign r false), log)
  | .replaceLocal k _, .destroy r old => some (s, some (.assign r true), .destroyed k (freeFunc k) old :: log)
  | .replaceLocal k value, .assign r destroyed =>
    some (s.setValue i r value, none, .stored k value :: if destroyed then log else drop k (s.values i r) log)
  | _, _ => none

/-- One step of `p_uthread_win32_thread_detach`. -/
def detachStep (log : List (TlsEvent κ)) :
    DetachPlace κ → Option (TlsShared ι κ × DetachPlace κ × List (TlsEvent κ))
  | .list => some (s, .walk false s.destructors, log)
  | .walk was_called [] => some (s, if was_called then .list else .finished, log)
  | .walk was_called (d :: next) =>
    some (s, if s.values i d.key_idx ≠ NULL ∧ d.free_func ≠ NULL then .clear d next (s.values i d.key_idx)
      else .walk was_called next, log)
  | .clear d next value => some (s.setValue i d.key_idx NULL, .destroy d next value, .cleared d.key :: log)
  | .destroy d next value => some (s, .callback next, .destroyed d.key d.free_func value :: log)
  | .callback next => some (s, .walk true next, log)
  | .finished => none

/-- Calls are made from the thread itself, and from `free_func` while the thread is detached. -/
def TlsThread.MayCall (l : TlsThread κ) : Prop :=
  match l.detach with
  | none => True
  | some (.callback _) => True
  | some _ => False

instance (l : TlsThread κ) : Decidable l.MayCall := by
  unfold TlsThread.MayCall
  split <;> infer_instance

def isUse : KeyPlace κ → Bool
  | .use _ | .destroy _ _ | .assign _ _ => true
  | _ => false

def tlsStep (i : ι) (a : TlsMove κ) (s : TlsShared ι κ) (l : TlsThread κ) :
    Option (TlsShared ι κ × TlsThread κ) :=
  match l.call with
  | some (c, place) =>
    if isUse place then
      (useStep freeFunc i s l.log c place).map fun r =>
        (r.1, { l with call := r.2.1.map fun place => (c, place), log := r.2.2 })
    else (ppUthreadGetTlsKey freeFunc i s c.key a place).map fun r => (r.1, { l with call := some (c, r.2) })
  | none =>
    match a with
    | .call c => if l.MayCall then some (s, { l with call := some (c, .get) }) else none
    | .detach => if l.detach = none then some (s, { l with detach := some .list }) else none
    | .next => l.detach.bind fun place =>
        (detachStep i s l.log place).map fun r => (r.1, { l with detach := some r.2.1, log := r.2.2 })
    | _ => none

end

/-! ## Logs -/

section
variable {κ : Type} [DecidableEq κ]

/-- The value that the thread sees under a key. -/
def view : List (TlsEvent κ) → κ → ppointer
  | [], _ => NULL
  | .stored k value :: log, k' => if k' = k then value else view log k'
  | .cleared k :: log, k' => if k' = k then NULL else view log k'
  | _ :: log, k' => view log k'

/-- Each value that was read is the one that the thread saw. -/
def Coherent : List (TlsEvent κ) → Prop
  | [] => True
  | .got k value :: log => value = view log k ∧ Coherent log
  | _ :: log => Coherent log

/-- Each value that was stored is one of the `live` ones, or it was destroyed by the function of the key, or
    dropped. -/
def Balanced (freeFunc : κ → ppointer) (log : List (TlsEvent κ)) (live : κ → ppointer → ℕ) : Prop :=
  ∀ k value, value ≠ NULL → log.count (.stored k value) =
    log.count (.destroyed k (freeFunc k) value) + log.count (.dropped k value) + live k value

/-- The values that the thread sees. -/
def seen (log : List (TlsEvent κ)) (k : κ) (value : ppointer) : ℕ := if view log k = value then 1 else 0

/-- One more value is live. -/
def plus (live : κ → ppointer → ℕ) (k : κ) (value : ppointer) (k' : κ) (value' : ppointer) : ℕ :=
  live k' value' + if k' = k ∧ value' = value then 1 else 0

/-- The values that the thread sees, but for one key. -/
def seenBut (log : List (TlsEvent κ)) (k k' : κ) (value : ppointer) : ℕ := if k' = k then 0 else seen log k' value

variable {freeFunc : κ → ppointer} {log : List (TlsEvent κ)} {live live' : κ → ppointer → ℕ} {k : κ}
  {value : ppointer}

theorem Balanced.congr (h : Balanced freeFunc log live)
    (heq : ∀ k value, value ≠ NULL → live' k value = live k value) :
    Balanced freeFunc log live' := by
  intro k value hvalue
  rw [h k value hvalue, heq k value hvalue]

theorem Balanced.stored (h : Balanced freeFunc log live) :
    Balanced freeFunc (.stored k value :: log) (plus live k value) := by
  intro k' value' hvalue
  have hlog := h k' value' hvalue
  by_cases heq : k' = k ∧ value' = value
  · obtain ⟨rfl, rfl⟩ := heq
    simp [plus, hlog]
    omega
  · have hne : TlsEvent.stored k value ≠ .stored k' value' := by
      intro hcases
      cases hcases
      exact heq ⟨rfl, rfl⟩
    simp [plus, heq, hlog, List.count_cons_of_ne hne]

theorem Balanced.dropped (h : Balanced freeFunc log (plus live k value)) :
    Balanced freeFunc (.dropped k value :: log) live := by
  intro k' value' hvalue
  have hlog := h k' value' hvalue
  by_cases heq : k' = k ∧ value' = value
  · obtain ⟨rfl, rfl⟩ := heq
    simp [plus] at hlog
    simp [hlog]
    omega
  · have hne : TlsEvent.dropped k value ≠ .dropped k' value' := by
      intro hcases
      cases hcases
      exact heq ⟨rfl, rfl⟩
    simp [plus, heq] at hlog
    simp [hlog, List.count_cons_of_ne hne]

theorem Balanced.destroyed (h : Balanced freeFunc log (plus live k value)) :
    Balanced freeFunc (.destroyed k (freeFunc k) value :: log) live := by
  intro k' value' hvalue
  have hlog := h k' value' hvalue
  by_cases heq : k' = k ∧ value' = value
  · obtain ⟨rfl, rfl⟩ := heq
    simp [plus] at hlog
    simp [hlog]
    omega
  · have hne : TlsEvent.destroyed k (freeFunc k) value ≠ .destroyed k' (freeFunc k') value' := by
      intro hcases
      cases hcases
      exact heq ⟨rfl, rfl⟩
    simp [plus, heq] at hlog
    simp [hlog, List.count_cons_of_ne hne]

theorem Balanced.cleared (h : Balanced freeFunc log live) : Balanced freeFunc (.cleared k :: log) live := by
  intro k' value' hvalue
  simp [h k' value' hvalue]

theorem Balanced.got (h : Balanced freeFunc log live) : Balanced freeFunc (.got k value :: log) live := by
  intro k' value' hvalue
  simp [h k' value' hvalue]

theorem plus_seenBut : plus (seenBut log k) k (view log k) = seen log := by
  funext k' value'
  by_cases hk : k' = k
  · subst hk
    by_cases hvalue : value' = view log k'
    · simp [plus, seenBut, seen, hvalue]
    · simp [plus, seenBut, seen, hvalue, Ne.symm hvalue]
  · simp [plus, seenBut, hk]

/-- What is overwritten is the value that was seen. -/
theorem Balanced.drop (h : Balanced freeFunc log (seen log)) :
    Balanced freeFunc (drop k (view log k) log) (seenBut log k) := by
  rw [← plus_seenBut (k := k)] at h
  by_cases hnull : view log k = NULL
  · rw [Windows.drop, if_pos hnull]
    refine h.congr fun k' value' hvalue => ?_
    rw [plus, if_neg (fun heq => hvalue (heq.2.trans hnull)), Nat.add_zero]
  · rw [Windows.drop, if_neg hnull]
    exact h.dropped

@[simp] theorem view_drop (old : ppointer) (k' : κ) : view (drop k old log) k' = view log k' := by
  rw [drop]
  split_ifs
  · rfl
  · rfl

theorem seenBut_cleared (hvalue : value ≠ NULL) (k' : κ) :
    seen (.cleared k :: log) k' value = seenBut log k k' value := by
  by_cases hk : k' = k
  · subst hk
    simp [seen, seenBut, view, hvalue.symm]
  · simp [seen, seenBut, view, hk]

theorem coherent_drop {old : ppointer} (h : Coherent log) : Coherent (drop k old log) := by
  rw [drop]
  split_ifs
  · exact h
  · exact h

/-- A value takes the place of those that were overwritten. -/
theorem seen_stored : seen (.stored k value :: log) = plus (seenBut log k) k value := by
  funext k' value'
  by_cases hk : k' = k
  · subst hk
    by_cases hvalue : value' = value
    · simp [plus, seenBut, seen, view, hvalue]
    · simp [plus, seenBut, seen, view, hvalue, Ne.symm hvalue]
  · simp [plus, seenBut, seen, view, hk]

end

end Windows

end Plibsys
