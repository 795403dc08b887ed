/-
  Thread-local storage (`puthread-posix.c`, `puthread-solaris.c`): what the threads share.

  The native key objects are numbered in the order of their allocation, so that one that has been
  freed is never taken for another.  Allocation and the calls of the system succeed.
-/
import Plibsys.Types
import Plibsys.Lib.Interleaving

namespace Plibsys

/-- How often a native key was created in an object, deleted and its memory freed. -/
structure TlsObject where
  creates : ℕ
  deletes : ℕ
  frees : ℕ
  deriving DecidableEq, Repr

/-- The calls of a thread on the `PUThreadKey`. -/
inductive TlsCall where
  | getLocal
  | setLocal (value : ppointer)
  deriving DecidableEq, Repr

/-- The `PUThreadKey`, the objects and the values of the threads.  The last three fields record what
    the calls did: the native keys they used, the last value each thread stored, and the values
    that were read, each with the one that had been stored. -/
structure TlsState (ι : Type) where
  key : ppointer
  nextObject : ppointer
  objects : ppointer → TlsObject
  specific : ppointer → ι → ppointer
  returned : List ppointer
  stored : ι → ppointer
  got : List (ppointer × ppointer)

variable {ι : Type}

/-- The state after `p_uthread_local_new`. -/
def tlsNew : TlsState ι where
  key := NULL
  nextObject := 1
  objects _ := ⟨0, 0, 0⟩
  specific _ _ := NULL
  returned := []
  stored _ := NULL
  got := []

namespace TlsState

/-- `p_malloc0 (sizeof (pthread_key_t))`. -/
def malloc (s : TlsState ι) : TlsState ι := { s with nextObject := s.nextObject + 1 }

def update (s : TlsState ι) (p : ppointer) (f : TlsObject → TlsObject) : TlsState ι :=
  { s with objects := Function.update s.objects p (f (s.objects p)) }

/-- The native key is created, deleted, or its memory is freed. -/
def keyCreate (s : TlsState ι) (p : ppointer) : TlsState ι :=
  s.update p fun o => { o with creates := o.creates + 1 }
def keyDelete (s : TlsState ι) (p : ppointer) : TlsState ι :=
  s.update p fun o => { o with deletes := o.deletes + 1 }
def free (s : TlsState ι) (p : ppointer) : TlsState ι := s.update p fun o => { o with frees := o.frees + 1 }

/-- `key->key = thread_key`. -/
def setKey (s : TlsState ι) (p : ppointer) : TlsState ι := { s with key := p }

theorem keyCreate_deletes (s : TlsState ι) (p q : ppointer) :
    ((s.keyCreate p).objects q).deletes = (s.objects q).deletes := by
  simp only [keyCreate, update]
  by_cases hq : q = p
  · subst hq
    rw [Function.update_self]
  · rw [Function.update_of_ne hq]

variable [DecidableEq ι]

/-- The end of `p_uthread_get_local` and `p_uthread_set_local`, with the native key they got. -/
def use (s : TlsState ι) (i : ι) (p : ppointer) : TlsCall → TlsState ι
  | .getLocal => { s with returned := p :: s.returned, got := (s.specific p i, s.stored i) :: s.got }
  | .setLocal value => { s with
      returned := p :: s.returned
      specific := Function.update s.specific p (Function.update (s.specific p) i value)
      stored := Function.update s.stored i value }

section
variable (s : TlsState ι) (i : ι) (p : ppointer) (call : TlsCall)

@[simp] theorem use_key : (s.use i p call).key = s.key := by cases call <;> rfl
@[simp] theorem use_nextObject : (s.use i p call).nextObject = s.nextObject := by cases call <;> rfl
@[simp] theorem use_objects : (s.use i p call).objects = s.objects := by cases call <;> rfl

end

end TlsState

/-! ## Who owns an object -/

/-- Every object is the one of the key, or owned by the thread that allocated it, or deleted and
    freed, each once.  `own` gives the object that a thread owns, with what happened to it. -/
structure Ownership (s : TlsState ι) (own : ι → Option (ppointer × TlsObject)) : Prop where
  next_pos : 0 < s.nextObject
  key_lt : s.key < s.nextObject
  key_object : s.key ≠ NULL → s.objects s.key = ⟨1, 0, 0⟩
  fresh : ∀ p, s.nextObject ≤ p → s.objects p = ⟨0, 0, 0⟩
  owned : ∀ i p o, own i = some (p, o) → 0 < p ∧ p < s.nextObject ∧ p ≠ s.key ∧ s.objects p = o
  once : ∀ i j p o o', own i = some (p, o) → own j = some (p, o') → i = j
  others : ∀ p, 0 < p → p < s.nextObject → p ≠ s.key → (∀ i o, own i ≠ some (p, o)) → s.objects p = ⟨1, 1, 1⟩

variable {s s' : TlsState ι} {own : ι →
    Option (ppointer × TlsObject)} {i j : ι} {p q : ppointer} {o o' : TlsObject}
  {call : TlsCall}

theorem ownership_new : Ownership (tlsNew : TlsState ι) fun _ => none where
  next_pos := Nat.one_pos
  key_lt := Nat.one_pos
  key_object h := absurd rfl h
  fresh _ _ := rfl
  owned _ _ _ := nofun
  once _ _ _ _ _ := nofun
  others _ h0 h1 := absurd h1 (Nat.not_lt_of_le h0)

namespace Ownership

/-- Only the key and the objects matter. -/
theorem congr (h : Ownership s own) (hkey : s'.key = s.key) (hnext : s'.nextObject = s.nextObject)
    (hobjects : s'.objects = s.objects) : Ownership s' own := by
  obtain ⟨key, next, objects, _, _, _, _⟩ := s'
  subst hkey hnext hobjects
  exact ⟨h.next_pos, h.key_lt, h.key_object, h.fresh, h.owned, h.once, h.others⟩

section
variable [DecidableEq ι]

theorem own_cases (h : Function.update own i (some (q, o)) j = some (p, o')) :
    j = i ∧ p = q ∧ o' = o ∨ j ≠ i ∧ own j = some (p, o') := by
  by_cases hj : j = i
  · subst hj
    rw [Function.update_self] at h
    cases h
    exact .inl ⟨rfl, rfl, rfl⟩
  · rw [Function.update_of_ne hj] at h
    exact .inr ⟨hj, h⟩

theorem own_none (h : Function.update own i none j = some (p, o)) : j ≠ i ∧ own j = some (p, o) := by
  by_cases hj : j = i
  · subst hj
    rw [Function.update_self] at h
    cases h
  · rw [Function.update_of_ne hj] at h
    exact ⟨hj, h⟩

/-- A thread allocates an object. -/
theorem malloc (h : Ownership s own) (hi : own i = none) :
    Ownership s.malloc (Function.update own i (some (s.nextObject, ⟨0, 0, 0⟩))) where
  next_pos := Nat.succ_pos _
  key_lt := Nat.lt_succ_of_lt h.key_lt
  key_object := h.key_object
  fresh p hp := h.fresh p (Nat.le_of_succ_le hp)
  owned j p o hj := by
    rcases own_cases hj with ⟨-, rfl, rfl⟩ | ⟨-, hj⟩
    · exact ⟨h.next_pos, Nat.lt_succ_self _, Nat.ne_of_gt h.key_lt, h.fresh _ (Nat.le_refl _)⟩
    · obtain ⟨h0, hlt, hrest⟩ := h.owned j p o hj
      exact ⟨h0, Nat.lt_succ_of_lt hlt, hrest⟩
  once j k p o o' hj hk := by
    rcases own_cases hj with ⟨hji, hp, -⟩ | ⟨-, hj'⟩ <;> rcases own_cases hk with ⟨hki, hq, -⟩ | ⟨-, hk'⟩
    · exact hji.trans hki.symm
    · exact absurd (h.owned k p o' hk').2.1 (hp ▸ Nat.lt_irrefl _)
    · exact absurd (h.owned j p o hj').2.1 (hq ▸ Nat.lt_irrefl _)
    · exact h.once j k p o o' hj' hk'
  others p h0 hlt hkey hnone := by
    have hp : p ≠ s.nextObject := by
      rintro rfl
      exact hnone i ⟨0, 0, 0⟩ (Function.update_self ..)
    refine h.others p h0 (Nat.lt_of_le_of_ne (Nat.le_of_lt_succ hlt) hp) hkey fun j o hj => ?_
    have hji : j ≠ i := by
      rintro rfl
      rw [hi] at hj
      cases hj
    exact hnone j o ((Function.update_of_ne hji ..).trans hj)

/-- Something happens to the object of a thread. -/
theorem update (h : Ownership s own) (hi : own i = some (p, o)) (f : TlsObject → TlsObject) :
    Ownership (s.update p f) (Function.update own i (some (p, f o))) := by
  obtain ⟨hpos, hlt, hne, hobject⟩ := h.owned i p o hi
  have hother : ∀ q, q ≠ p → (s.update p f).objects q = s.objects q := fun q hq => Function.update_of_ne hq ..
  refine ⟨h.next_pos, h.key_lt, fun hkey => (hother _ (Ne.symm hne)).trans (h.key_object hkey), fun q hq => ?_,
    fun j q o' hj => ?_, fun j k q o' o'' hj hk => ?_, fun q h0 hq hkey hnone => ?_⟩
  · exact (hother q (Nat.ne_of_gt (Nat.lt_of_lt_of_le hlt hq))).trans (h.fresh q hq)
  · rcases own_cases hj with ⟨-, rfl, rfl⟩ | ⟨hji, hj'⟩
    · refine ⟨hpos, hlt, hne, ?_⟩
      rw [← hobject]
      exact Function.update_self ..
    · obtain ⟨h0, hq, hkey, hobject'⟩ := h.owned j q o' hj'
      refine ⟨h0, hq, hkey, (hother q fun hqp => ?_).trans hobject'⟩
      exact hji (h.once j i q o' o hj' (hqp ▸ hi))
  · rcases own_cases hj with ⟨hji, hq, -⟩ | ⟨hji, hj'⟩ <;> rcases own_cases hk with ⟨hki, hq', -⟩ | ⟨hki, hk'⟩
    · exact hji.trans hki.symm
    · exact absurd (h.once k i q o'' o hk' (hq ▸ hi)) hki
    · exact absurd (h.once j i q o' o hj' (hq' ▸ hi)) hji
    · exact h.once j k q o' o'' hj' hk'
  · have hqp : q ≠ p := by
      rintro rfl
      exact hnone i (f o) (Function.update_self ..)
    refine (hother q hqp).trans (h.others q h0 hq hkey fun j o' hj => ?_)
    have hji : j ≠ i := by
      rintro rfl
      rw [hi] at hj
      cases hj
      exact hqp rfl
    exact hnone j o' ((Function.update_of_ne hji ..).trans hj)

/-- A thread forgets an object that has been deleted and freed. -/
theorem forget (h : Ownership s own) (hi : own i = some (p, ⟨1, 1, 1⟩)) :
    Ownership s (Function.update own i none) where
  next_pos := h.next_pos
  key_lt := h.key_lt
  key_object := h.key_object
  fresh := h.fresh
  owned j q o hj := h.owned j q o (own_none hj).2
  once j k q o o' hj hk := h.once j k q o o' (own_none hj).2 (own_none hk).2
  others q h0 hlt hkey hnone := by
    by_cases hqp : q = p
    · subst hqp
      exact (h.owned i q _ hi).2.2.2
    · refine h.others q h0 hlt hkey fun j o hj => ?_
      have hji : j ≠ i := by
        rintro rfl
        rw [hi] at hj
        cases hj
        exact hqp rfl
      exact hnone j o ((Function.update_of_ne hji ..).trans hj)

/-- The object of a thread becomes the one of the key. -/
theorem publish (h : Ownership s own) (hi : own i = some (p, ⟨1, 0, 0⟩)) (hkey : s.key = NULL) :
    Ownership (s.setKey p) (Function.update own i none) := by
  obtain ⟨hpos, hlt, -, hobject⟩ := h.owned i p _ hi
  refine ⟨h.next_pos, hlt, fun _ => hobject, h.fresh, fun j q o hj => ?_, fun j k q o o' hj hk =>
    h.once j k q o o' (own_none hj).2 (own_none hk).2, fun q h0 hq hqp hnone => ?_⟩
  · obtain ⟨hji, hj⟩ := own_none hj
    obtain ⟨h0, hq, -, hobject'⟩ := h.owned j q o hj
    refine ⟨h0, hq, ?_, hobject'⟩
    rintro rfl
    exact hji (h.once j i _ o _ hj hi)
  · have hqp : q ≠ p := hqp
    refine h.others q h0 hq (hkey ▸ Nat.ne_of_gt h0) fun j o hj => ?_
    have hji : j ≠ i := by
      rintro rfl
      rw [hi] at hj
      cases hj
      exact hqp rfl
    exact hnone j o ((Function.update_of_ne hji ..).trans hj)

end

end Ownership

/-! ## The values of the threads -/

/-- Only the native key of the `PUThreadKey` has been used, and it has the last value of each thread. -/
structure ValuesKept (s : TlsState ι) : Prop where
  returned : ∀ p ∈ s.returned, p = s.key ∧ s.key ≠ NULL
  specific_key : ∀ i, s.specific s.key i = s.stored i
  stored_null : s.key = NULL → ∀ i, s.stored i = NULL
  specific_other : ∀ p i, p ≠ s.key → s.specific p i = NULL
  got : ∀ g ∈ s.got, g.1 = g.2

theorem valuesKept_new : ValuesKept (tlsNew : TlsState ι) where
  returned _ := nofun
  specific_key _ := rfl
  stored_null _ _ := rfl
  specific_other _ _ _ := rfl
  got _ := nofun

namespace ValuesKept

/-- The objects do not matter. -/
theorem congr (h : ValuesKept s) (hkey : s'.key = s.key) (hspecific : s'.specific = s.specific)
    (hreturned : s'.returned = s.returned) (hstored : s'.stored = s.stored) (hgot : s'.got = s.got) :
    ValuesKept s' := by
  obtain ⟨key, _, _, specific, returned, stored, got⟩ := s'
  subst hkey hspecific hreturned hstored hgot
  exact ⟨h.returned, h.specific_key, h.stored_null, h.specific_other, h.got⟩

theorem publish (h : ValuesKept s) (hkey : s.key = NULL) (hp : p ≠ NULL) : ValuesKept (s.setKey p) where
  returned q hq := absurd hkey (h.returned q hq).2
  specific_key i := (h.specific_other p i (hkey ▸ hp)).trans (h.stored_null hkey i).symm
  stored_null hnull := absurd hnull hp
  specific_other q i _ := by
    by_cases hq : q = s.key
    · rw [hq]
      exact (h.specific_key i).trans (h.stored_null hkey i)
    · exact h.specific_other q i hq
  got := h.got

theorem use [DecidableEq ι] (h : ValuesKept s) (i : ι) (hp : p = s.key) (hkey : s.key ≠ NULL) (call : TlsCall) :
    ValuesKept (s.use i p call) := by
  subst hp
  cases call with
  | getLocal =>
    refine ⟨?_, h.specific_key, h.stored_null, h.specific_other, ?_⟩
    · rintro q (_ | ⟨_, hq⟩)
      · exact ⟨rfl, hkey⟩
      · exact h.returned q hq
    · rintro g (_ | ⟨_, hg⟩)
      · exact h.specific_key i
      · exact h.got g hg
  | setLocal value =>
    refine ⟨?_, fun j => ?_, fun hnull => absurd hnull hkey, fun q j hq => ?_, h.got⟩
    · rintro q (_ | ⟨_, hq⟩)
      · exact ⟨rfl, hkey⟩
      · exact h.returned q hq
    · simp only [TlsState.use, Function.update_self]
      by_cases hj : j = i
      · rw [hj, Function.update_self, Function.update_self]
      · rw [Function.update_of_ne hj, Function.update_of_ne hj, h.specific_key]
    · have hq : q ≠ s.key := hq
      simp only [TlsState.use, Function.update_of_ne hq]
      exact h.specific_other q j hq

end ValuesKept

end Plibsys
