/-
  The packed words of the read-write locks (`prwlock-general.c`, `prwlock-win.c`).

  Both locks keep the number of readers in the bits 0 to 14 of a word and another number in the bits
  15 to 29; the lock for Windows XP keeps a flag in the bit 30.  There is no check that a number fits.
-/
import Plibsys.Lib.Fields
import Plibsys.Types

namespace Plibsys

/-! ## `P_RWLOCK_*` -/

def rwlockSetReaders (lock readers : puint32) : puint32 := (lock &&& ~~~0x00007FFF) ||| readers

def rwlockReaderCount (lock : puint32) : puint32 := lock &&& 0x00007FFF

def rwlockSetWriters (lock writers : puint32) : puint32 :=
  (lock &&& ~~~(0x3FFF8000 : puint32)) ||| (writers <<< 15)

def rwlockWriterCount (lock : puint32) : puint32 := (lock &&& 0x3FFF8000) >>> 15

/-! ## `P_RWLOCK_XP_*` -/

def rwlockXpMaxSpin : ℕ := 4000

def rwlockXpIsClear (lock : puint32) : Bool := lock &&& 0x40007FFF = 0

def rwlockXpIsWriter (lock : puint32) : Bool := lock &&& 0x40000000 ≠ 0

def rwlockXpSetWriter (lock : puint32) : puint32 := lock ||| 0x40000000

def rwlockXpUnsetWriter (lock : puint32) : puint32 := lock &&& ~~~0x40000000

def rwlockXpSetReaders (lock readers : puint32) : puint32 := (lock &&& ~~~0x00007FFF) ||| readers

def rwlockXpReaderCount (lock : puint32) : puint32 := lock &&& 0x00007FFF

def rwlockXpSetWaiting (lock waiting : puint32) : puint32 :=
  (lock &&& ~~~(0x3FFF8000 : puint32)) ||| (waiting <<< 15)

def rwlockXpWaitingCount (lock : puint32) : puint32 := (lock &&& 0x3FFF8000) >>> 15

/-! ## Words that hold three numbers -/

/-- A word that holds `lo` in the bits 0 to 14, `mid` in the bits 15 to 29 and `hi` above. -/
structure Packs (x : puint32) (lo mid hi : ℕ) : Prop where
  lo_lt : lo < 2 ^ 15
  mid_lt : mid < 2 ^ 15
  toNat_eq : x.toNat = lo + 2 ^ 15 * mid + 2 ^ 30 * hi

namespace Packs

variable {x v : puint32} {lo mid hi : ℕ}

theorem zero : Packs 0 0 0 0 := ⟨by decide, by decide, rfl⟩

theorem readerCount (h : Packs x lo mid hi) : (rwlockReaderCount x).toNat = lo := by
  have hfield := Fields.toNat_and_mask (o := 0) (w := 15) (by decide) x
  obtain ⟨hlo, hmid, heq⟩ := h
  rw [rwlockReaderCount]
  refine hfield.trans ?_
  omega

theorem writerCount (h : Packs x lo mid hi) : (rwlockWriterCount x).toNat = mid := by
  have hfield := Fields.toNat_field (o := 15) (w := 15) (by decide) x
  obtain ⟨hlo, hmid, heq⟩ := h
  rw [rwlockWriterCount]
  refine hfield.trans ?_
  omega

theorem setReaders (h : Packs x lo mid hi) (hv : v.toNat < 2 ^ 15) :
    Packs (rwlockSetReaders x v) v.toNat mid hi := by
  have hset := Fields.toNat_set (o := 0) (w := 15) (by decide) hv x
  obtain ⟨hlo, hmid, heq⟩ := h
  refine ⟨hv, hmid, ?_⟩
  have hword : (rwlockSetReaders x v).toNat + x.toNat / 2 ^ 0 % 2 ^ 15 * 2 ^ 0 = x.toNat + v.toNat * 2 ^ 0 := by
    rw [← hset, BitVec.shiftLeft_zero]
    rfl
  omega

theorem setWriters (h : Packs x lo mid hi) (hv : v.toNat < 2 ^ 15) :
    Packs (rwlockSetWriters x v) lo v.toNat hi := by
  have hset := Fields.toNat_set (o := 15) (w := 15) (by decide) hv x
  obtain ⟨hlo, hmid, heq⟩ := h
  refine ⟨hlo, hv, ?_⟩
  have hword : (rwlockSetWriters x v).toNat + x.toNat / 2 ^ 15 % 2 ^ 15 * 2 ^ 15 =
    x.toNat + v.toNat * 2 ^ 15 := hset
  omega

theorem toNat_inj (h : Packs x lo mid hi) (h' : Packs v lo mid hi) : x = v :=
  BitVec.eq_of_toNat_eq (h.toNat_eq.trans h'.toNat_eq.symm)

/-- A word holds no other numbers. -/
theorem unique {lo' mid' hi' : ℕ} (h : Packs x lo mid hi) (h' : Packs x lo' mid' hi') :
    lo = lo' ∧ mid = mid' ∧ hi = hi' := by
  obtain ⟨hlo, hmid, heq⟩ := h
  obtain ⟨hlo', hmid', heq'⟩ := h'
  omega

theorem eq_zero_iff (h : Packs x lo mid hi) : x = 0 ↔ lo = 0 ∧ mid = 0 ∧ hi = 0 := by
  constructor
  · rintro rfl
    exact h.unique zero
  · rintro ⟨rfl, rfl, rfl⟩
    exact h.toNat_inj zero

theorem toNat_succ {n : ℕ} (hv : v.toNat = n) (hn : n < 2 ^ 15) : (v + 1).toNat = n + 1 := by
  have hone : (1 : puint32).toNat = 1 := rfl
  rw [BitVec.toNat_add, hv, hone]
  exact Nat.mod_eq_of_lt (by omega)

theorem toNat_pred {n : ℕ} (hv : v.toNat = n) (hn : 0 < n) : (v - 1).toNat = n - 1 := by
  have hlt := v.isLt
  rw [BitVec.toNat_sub, hv]
  show (2 ^ 32 - 1 + n) % 2 ^ 32 = n - 1
  omega

theorem addReader (h : Packs x lo mid hi) (hlt : lo + 1 < 2 ^ 15) :
    Packs (rwlockSetReaders x (rwlockReaderCount x + 1)) (lo + 1) mid hi := by
  have hv := toNat_succ h.readerCount h.lo_lt
  have hset := h.setReaders (hv.trans_lt hlt)
  rwa [hv] at hset

theorem subReader (h : Packs x lo mid hi) (hpos : 0 < lo) :
    Packs (rwlockSetReaders x (rwlockReaderCount x - 1)) (lo - 1) mid hi := by
  have hv := toNat_pred h.readerCount hpos
  have hset := h.setReaders (hv.trans_lt ((Nat.sub_le lo 1).trans_lt h.lo_lt))
  rwa [hv] at hset

theorem addWriter (h : Packs x lo mid hi) (hlt : mid + 1 < 2 ^ 15) :
    Packs (rwlockSetWriters x (rwlockWriterCount x + 1)) lo (mid + 1) hi := by
  have hv := toNat_succ h.writerCount h.mid_lt
  have hset := h.setWriters (hv.trans_lt hlt)
  rwa [hv] at hset

theorem subWriter (h : Packs x lo mid hi) (hpos : 0 < mid) :
    Packs (rwlockSetWriters x (rwlockWriterCount x - 1)) lo (mid - 1) hi := by
  have hv := toNat_pred h.writerCount hpos
  have hset := h.setWriters (hv.trans_lt ((Nat.sub_le mid 1).trans_lt h.mid_lt))
  rwa [hv] at hset

/-! ## The flag of the lock for Windows XP -/

theorem toNat_and_flag (h : Packs x lo mid hi) : (x &&& 0x40000000).toNat = hi % 2 * 2 ^ 30 := by
  have hbit := Fields.toNat_and_mask (o := 30) (w := 1) (by decide) x
  obtain ⟨hlo, hmid, heq⟩ := h
  refine hbit.trans ?_
  omega

theorem isWriter (h : Packs x lo mid hi) : rwlockXpIsWriter x ↔ hi % 2 = 1 := by
  have hflag := h.toNat_and_flag
  have hzero : x &&& 0x40000000 = 0 ↔ (x &&& 0x40000000).toNat = 0 := BitVec.toNat_inj.symm
  rw [rwlockXpIsWriter, decide_eq_true_iff, ne_eq, hzero]
  omega

theorem isClear (h : Packs x lo mid hi) : rwlockXpIsClear x ↔ lo = 0 ∧ hi % 2 = 0 := by
  have hflag := h.toNat_and_flag
  have hreaders : (x &&& 0x00007FFF).toNat = lo := h.readerCount
  have hsplit : x &&& 0x40007FFF = (x &&& 0x00007FFF) ||| (x &&& 0x40000000) := by
    rw [← BitVec.and_or_distrib_left]
    rfl
  have hzero : (x &&& 0x00007FFF) ||| (x &&& 0x40000000) = 0 ↔ x &&& 0x00007FFF = 0 ∧ x &&& 0x40000000 = 0 :=
    BitVec.or_eq_zero_iff
  rw [rwlockXpIsClear, decide_eq_true_iff, hsplit, hzero, ← BitVec.toNat_inj, ← BitVec.toNat_inj, hreaders, hflag]
  show lo = 0 ∧ hi % 2 * 2 ^ 30 = 0 ↔ _
  omega

theorem setWriter (h : Packs x lo mid 0) : Packs (rwlockXpSetWriter x) lo mid 1 := by
  have hdisjoint : x &&& 0x40000000 = 0 := BitVec.eq_of_toNat_eq h.toNat_and_flag
  have hor := Fields.toNat_or_of_disjoint hdisjoint
  refine ⟨h.lo_lt, h.mid_lt, hor.trans ?_⟩
  rw [h.toNat_eq]
  rfl

theorem unsetWriter (h : Packs x lo mid 1) : Packs (rwlockXpUnsetWriter x) lo mid 0 := by
  have hrest := Fields.toNat_and_not x 0x40000000
  rw [h.toNat_and_flag, h.toNat_eq] at hrest
  refine ⟨h.lo_lt, h.mid_lt, ?_⟩
  rw [rwlockXpUnsetWriter]
  omega

end Packs

/-! ## Words of which little is known -/

section
variable {x v : puint32}

/-- Another field of a word, when the readers have been set. -/
theorem and_setReaders (m : puint32) (hm : ~~~(0x00007FFF : puint32) &&& m = m) (x v : puint32) :
    rwlockXpSetReaders x v &&& m = (x &&& m) ||| (v &&& m) := by
  rw [rwlockXpSetReaders, BitVec.and_or_distrib_right, BitVec.and_assoc, hm]

/-- A waiter stays counted when the readers are set to any number. -/
theorem waitingCount_setReaders (h : rwlockXpWaitingCount x ≠ 0) (v : puint32) :
    rwlockXpWaitingCount (rwlockXpSetReaders x v) ≠ 0 := by
  have hfield : ∀ y : puint32, rwlockXpWaitingCount y = 0 ↔ y &&& 0x3FFF8000 = 0 := by
    intro y
    have hcount : (rwlockXpWaitingCount y).toNat = y.toNat / 2 ^ 15 % 2 ^ 15 :=
      Fields.toNat_field (o := 15) (w := 15) (by decide) y
    have hmask : (y &&& 0x3FFF8000).toNat = y.toNat / 2 ^ 15 % 2 ^ 15 * 2 ^ 15 :=
      Fields.toNat_and_mask (o := 15) (w := 15) (by decide) y
    rw [← BitVec.toNat_inj, ← BitVec.toNat_inj, hcount, hmask]
    show _ = 0 ↔ _ = 0
    omega
  rw [ne_eq, hfield] at h ⊢
  rw [and_setReaders _ (by decide)]
  exact fun hzero => h (BitVec.or_eq_zero_iff.1 hzero).1

/-- The flag does not change when the readers are set to 2^15 at most. -/
theorem isWriter_setReaders (hv : v.toNat ≤ 2 ^ 15) (x : puint32) :
    rwlockXpIsWriter (rwlockXpSetReaders x v) = rwlockXpIsWriter x := by
  have hnone : v &&& 0x40000000 = 0 := by
    have hmask := Fields.toNat_and_mask (o := 30) (w := 1) (by decide) v
    refine BitVec.eq_of_toNat_eq (hmask.trans ?_)
    show _ = 0
    omega
  have hflag : x &&& 0x40000000 ||| 0 = x &&& 0x40000000 := BitVec.or_zero
  rw [rwlockXpIsWriter, rwlockXpIsWriter, and_setReaders _ (by decide), hnone, hflag]

theorem toNat_readerCount_lt (x : puint32) : (rwlockXpReaderCount x).toNat < 2 ^ 15 := by
  have hfield := Fields.toNat_and_mask (o := 0) (w := 15) (by decide) x
  have hcount : (rwlockXpReaderCount x).toNat = x.toNat / 2 ^ 0 % 2 ^ 15 * 2 ^ 0 := hfield
  omega

end

end Plibsys
