/-
  How many readers the read-write lock can count (`prwlock-general.c`).

  Readers only: as long as there are fewer than 2^15 of them, the word is their number.  The next one carries into
  the field of the writers, and from then on the word says for ever that there is a writer and no reader.
-/
import Plibsys.Lock.RwlockGeneral

namespace Plibsys.Rwlock

open Interleaving

variable {ι : Type}

/-- What readers do. -/
def Choice.reads : Choice ι → Prop
  | .writerLock => False
  | .writerTrylock => False
  | .writerUnlock _ => False
  | _ => True

variable [Fintype ι] [DecidableEq ι]

/-- **The word is the number of the readers**: there is no writer and no waiter, no writer gets the lock while
    there are readers, and a writer gets it when they have unlocked. -/
structure CountsReaders (c : RwConfig ι) : Prop where
  readers : (rwlockReaderCount c.shared.active_threads).toNat = number .reading c
  writers : rwlockWriterCount c.shared.active_threads = 0
  waiters : c.shared.waiting_threads = 0
  refused : 0 < number .reading c → ∀ w,
    (pRwlockWriterTrylock c.shared).2 = .idle ∧ (pRwlockWriterLock w c.shared).2 = .writeWait
  freed : ∀ ys c', (∀ y ∈ ys, ∃ woken, y.2 = .readerUnlock woken) → run step c ys = some c' →
    number .reading c' = 0 →
    c'.shared.active_threads = 0 ∧ ∀ w,
      (pRwlockWriterTrylock c'.shared).2 = .writing ∧ (pRwlockWriterLock w c'.shared).2 = .writing

/-- The word is the number of the readers. -/
structure Counted (c : RwConfig ι) : Prop where
  active : Packs c.shared.active_threads (number .reading c) 0 0
  waiting : c.shared.waiting_threads = 0
  places : ∀ i, c.loc i = .idle ∨ c.loc i = .reading

/-- The number of the readers has spilled into the field of the writers. -/
structure Spilled (c : RwConfig ι) : Prop where
  active : c.shared.active_threads = 0x8000
  places : ∀ i, c.loc i = .idle ∨ c.loc i = .reading ∨ c.loc i = .readWait

variable {c : RwConfig ι} {i : ι} {a : Choice ι} {s : PRWLock ι} {l : Place}

theorem number_set (p : Place) (c : RwConfig ι) (i : ι) (s : PRWLock ι) (l : Place) :
    number p (c.set i s l) + count p (c.loc i) = number p c + count p l := by
  rw [← tally_count, ← tally_count]
  exact tally_set (count p) c i s l

namespace Counted

theorem places_set (h : Counted c) (hl : l = .idle ∨ l = .reading) :
    ∀ j, (c.set i s l).loc j = .idle ∨ (c.set i s l).loc j = .reading :=
  forall_set (P := fun _ p => p = Place.idle ∨ p = Place.reading) hl fun j _ => h.places j

omit [DecidableEq ι] in
theorem writers (h : Counted c) : rwlockWriterCount c.shared.active_threads = 0 :=
  BitVec.eq_of_toNat_eq h.active.writerCount

/-- A reader gets the lock. -/
theorem begins (h : Counted c) (hloc : c.loc i = .idle)
    (hactive : s.active_threads =
    rwlockSetReaders c.shared.active_threads (rwlockReaderCount c.shared.active_threads + 1))
    (hwaiting : s.waiting_threads = c.shared.waiting_threads) :
    (number .reading (c.set i s .reading) < 32768 → Counted (c.set i s .reading)) ∧
      (¬ number .reading (c.set i s .reading) < 32768 → Spilled (c.set i s .reading)) := by
  have hnumber : number .reading (c.set i s .reading) = number .reading c + 1 := by
    have hset := number_set .reading c i s .reading
    rw [hloc] at hset
    exact hset
  rw [hnumber]
  constructor
  · intro hlt
    refine ⟨?_, hwaiting.trans h.waiting, h.places_set (.inr rfl)⟩
    rw [shared_set, hactive, hnumber]
    exact h.active.addReader hlt
  · intro hge
    have hfull : c.shared.active_threads = 0x7FFF := by
      obtain ⟨hlt, -, hword⟩ := h.active
      refine BitVec.eq_of_toNat_eq ?_
      rw [hword]
      show _ = 32767
      omega
    refine ⟨?_, fun j => (h.places_set (.inr rfl) j).imp_right .inl⟩
    rw [shared_set, hactive, hfull]
    rfl

/-- A reader releases the lock. -/
theorem ends (h : Counted c) (hloc : c.loc i = .reading)
    (hactive : s.active_threads =
    rwlockSetReaders c.shared.active_threads (rwlockReaderCount c.shared.active_threads - 1))
    (hwaiting : s.waiting_threads = c.shared.waiting_threads) : Counted (c.set i s .idle) := by
  have hnumber : number .reading (c.set i s .idle) + 1 = number .reading c := by
    have hset := number_set .reading c i s .idle
    rw [hloc] at hset
    exact hset
  refine ⟨?_, hwaiting.trans h.waiting, h.places_set (.inl rfl)⟩
  have hsub := h.active.subReader (by omega)
  rwa [← hnumber, Nat.add_sub_cancel, ← hactive] at hsub

theorem unlock (h : Counted c) (hloc : c.loc i = .reading) {woken : Finset ι}
    (hs : pRwlockReaderUnlock woken c.shared = some (s, l)) : Counted (c.set i s l) := by
  have hpresent : 0 < number .reading c := by
    rw [← tally_count]
    exact present hloc
  have hcount : rwlockReaderCount c.shared.active_threads ≠ 0 := by
    intro hzero
    have hreaders := h.active.readerCount
    rw [hzero] at hreaders
    exact Nat.ne_of_lt hpresent hreaders
  have hwaiting : ¬ (rwlockReaderCount c.shared.active_threads = 1 ∧
    rwlockWriterCount c.shared.waiting_threads ≠ 0) := by
    rw [h.waiting]
    exact fun hboth => hboth.2 rfl
  rw [pRwlockReaderUnlock, if_neg hcount, if_neg hwaiting] at hs
  cases hs
  exact h.ends hloc rfl rfl

/-- **A reader's step** keeps the word the number of the readers, or the number spills. -/
theorem step (h : Counted c) (ha : a.reads) (hstep : step i a c.shared (c.loc i) = some (s, l)) :
    (number .reading (c.set i s l) < 32768 → Counted (c.set i s l)) ∧
      (¬ number .reading (c.set i s l) < 32768 → Spilled (c.set i s l)) := by
  have hwriters : ¬ rwlockWriterCount c.shared.active_threads ≠ 0 := not_not.2 h.writers
  rcases h.places i with hloc | hloc
  · rw [hloc] at hstep
    cases a with
    | readerLock =>
      have hs := Option.some.inj hstep
      rw [pRwlockReaderLock, if_neg hwriters] at hs
      cases hs
      exact h.begins hloc rfl rfl
    | readerTrylock =>
      have hs := Option.some.inj hstep
      rw [pRwlockReaderTrylock, if_neg hwriters] at hs
      cases hs
      exact h.begins hloc rfl rfl
    | writerLock => exact ha.elim
    | writerTrylock => exact ha.elim
    | _ => cases hstep
  · rw [hloc] at hstep
    cases a with
    | readerUnlock woken =>
      have hcounted := h.unlock hloc hstep
      exact ⟨fun _ => hcounted, fun hge => absurd hcounted.active.lo_lt hge⟩
    | _ => cases hstep

theorem countsReaders (h : Counted c) : CountsReaders c := by
  refine ⟨h.active.readerCount, h.writers, h.waiting, ?_, ?_⟩
  · intro hpos w
    have hactive : c.shared.active_threads ≠ 0 := by
      rw [ne_eq, h.active.eq_zero_iff]
      omega
    rw [pRwlockWriterTrylock, pRwlockWriterLock, if_pos hactive, if_pos hactive]
    exact ⟨rfl, rfl⟩
  · intro ys c' hys hrun hnone
    have hcounted : Counted c' := by
      have hok : Along Rwlock.step (fun _ y => ∃ woken, y.2 = .readerUnlock woken) c ys := .of_mem hys c
      refine run_invariant_along ?_ h hok hrun
      rintro c i a s l hc ⟨woken, rfl⟩ hstep
      rcases hc.places i with hloc | hloc
      · rw [hloc] at hstep
        cases hstep
      · rw [hloc] at hstep
        exact hc.unlock hloc hstep
    have hzero : c'.shared.active_threads = 0 := hcounted.active.eq_zero_iff.2 ⟨hnone, rfl, rfl⟩
    refine ⟨hzero, fun w => ?_⟩
    rw [pRwlockWriterTrylock, pRwlockWriterLock, if_neg (not_not.2 hzero), if_neg (not_not.2 hzero)]
    exact ⟨rfl, rfl⟩

end Counted

namespace Spilled

omit [Fintype ι] [DecidableEq ι] in
theorem writers (h : Spilled c) : rwlockWriterCount c.shared.active_threads ≠ 0 := by
  rw [h.active]
  decide

omit [Fintype ι] in
theorem set (h : Spilled c) (hactive : s.active_threads = c.shared.active_threads)
    (hl : l = .idle ∨ l = .reading ∨ l = .readWait) : Spilled (c.set i s l) :=
  ⟨hactive.trans h.active,
    forall_set (P := fun _ p => p = Place.idle ∨ p = Place.reading ∨ p = Place.readWait) hl fun j _ => h.places j⟩

omit [Fintype ι] in
/-- **It stays so**: a reader blocks, and a release does nothing. -/
theorem step (h : Spilled c) (ha : a.reads) (hstep : step i a c.shared (c.loc i) = some (s, l)) :
    Spilled (c.set i s l) := by
  rcases h.places i with hloc | hloc | hloc
  · rw [hloc] at hstep
    cases a with
    | readerLock =>
      have hs := Option.some.inj hstep
      rw [pRwlockReaderLock, if_pos h.writers] at hs
      cases hs
      exact h.set rfl (.inr (.inr rfl))
    | readerTrylock =>
      have hs := Option.some.inj hstep
      rw [pRwlockReaderTrylock, if_pos h.writers] at hs
      cases hs
      exact h.set rfl (.inl rfl)
    | writerLock => exact ha.elim
    | writerTrylock => exact ha.elim
    | _ => cases hstep
  · rw [hloc] at hstep
    cases a with
    | readerUnlock woken =>
      have hnone : rwlockReaderCount c.shared.active_threads = 0 := by
        rw [h.active]
        rfl
      have hs : pRwlockReaderUnlock woken c.shared = some (s, l) := hstep
      rw [pRwlockReaderUnlock, if_pos hnone] at hs
      cases hs
      exact h.set rfl (.inl rfl)
    | _ => cases hstep
  · rw [hloc] at hstep
    cases a with
    | wakes =>
      cases hstep
      exact h.set rfl (.inr (.inr rfl))
    | waitReturns =>
      obtain ⟨-, hs⟩ := Option.ite_none_left_eq_some.1 hstep
      have hs := Option.some.inj hs
      rw [readerWaited, if_pos ⟨rfl, h.writers⟩] at hs
      cases hs
      exact h.set rfl (.inr (.inr rfl))
    | waitFails =>
      cases hstep
      exact h.set rfl (.inl rfl)
    | _ => cases hstep

end Spilled

omit [DecidableEq ι] in
variable (ι) in
theorem new_counted : Counted (new ι) := by
  refine ⟨?_, rfl, fun _ => .inl rfl⟩
  have hnone : number .reading (new ι) = 0 := by
    rw [← tally_count]
    exact tally_eq_zero fun _ => rfl
  rw [hnone]
  exact Packs.zero

/-- **The word counts the readers as long as they are fewer than 2^15**, and never after that. -/
theorem counted_or_spilled {xs : List (ι × Choice ι)} (hreads : ∀ x ∈ xs, x.2.reads)
    (hrun : run step (new ι) xs = some c) :
    (Throughout step (fun c => number .reading c < 32768) (new ι) xs → Counted c) ∧
      (¬ Throughout step (fun c => number .reading c < 32768) (new ι) xs → Spilled c) :=
  run_good_or_bad (fun _ _ _ _ _ h ha hstep => h.step ha hstep) (fun _ _ _ _ _ h ha hstep => h.step ha hstep)
    (new_counted ι) (new_counted ι).active.lo_lt hreads hrun

theorem countsReaders_iff {xs : List (ι × Choice ι)} (hreads : ∀ x ∈ xs, x.2.reads)
    (hrun : run step (new ι) xs = some c) :
    CountsReaders c ↔ Throughout step (fun c => number .reading c < 32768) (new ι) xs := by
  obtain ⟨hcounted, hspilled⟩ := counted_or_spilled hreads hrun
  constructor
  · intro hcounts
    by_contra hnot
    exact (hspilled hnot).writers hcounts.writers
  · intro hfew
    exact (hcounted hfew).countsReaders

omit [DecidableEq ι] in
theorem Counted.exists_idle (h : Counted c) (hcard : number .reading c < Fintype.card ι) :
    ∃ i, c.loc i = .idle := by
  by_contra hnone
  have hall : ∀ i ∈ Finset.univ, c.loc i = .reading := fun i _ => (h.places i).resolve_left fun hi => hnone ⟨i, hi⟩
  rw [number, Finset.filter_true_of_mem hall, Finset.card_univ] at hcard
  exact Nat.lt_irrefl _ hcard

/-- As many readers as there are threads get the lock, up to the limit. -/
theorem exists_readers {n : ℕ} (hn : n ≤ 32768) (hcard : n ≤ Fintype.card ι) :
    ∃ xs c, (∀ x ∈ xs, x.2.reads) ∧ run step (new ι) xs = some c ∧ number .reading c = n ∧
      (n < 32768 → Counted c) := by
  induction n with
  | zero =>
    refine ⟨[], new ι, fun x hx => absurd hx List.not_mem_nil, rfl, ?_, fun _ => new_counted ι⟩
    rw [← tally_count]
    exact tally_eq_zero fun _ => rfl
  | succ n ih =>
    obtain ⟨xs, c, hreads, hrun, hnumber, hcounted⟩ := ih (by omega) (by omega)
    have h := hcounted (by omega)
    obtain ⟨i, hloc⟩ := h.exists_idle (by omega)
    obtain ⟨s, hstep, hactive, hwaiting⟩ : ∃ s, step i .readerLock c.shared (c.loc i) = some (s, .reading) ∧
        s.active_threads = rwlockSetReaders c.shared.active_threads
          (rwlockReaderCount c.shared.active_threads + 1) ∧
        s.waiting_threads = c.shared.waiting_threads := by
      rw [hloc]
      exact ⟨_, congrArg some (if_neg (not_not.2 h.writers)), rfl, rfl⟩
    have hset := number_set .reading c i s .reading
    rw [hloc, hnumber] at hset
    refine ⟨xs ++ [(i, .readerLock)], _, ?_, run_trans hrun (run_of_step hstep), hset, fun hlt => ?_⟩
    · intro x hx
      rcases List.mem_append.1 hx with hx | hx
      · exact hreads x hx
      · rw [List.mem_singleton.1 hx]
        trivial
    · exact (h.begins hloc hactive hwaiting).1 (hset.trans_lt hlt)

end Plibsys.Rwlock
