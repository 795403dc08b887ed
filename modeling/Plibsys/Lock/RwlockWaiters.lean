/-
  No thread waits for ever for a free read-write lock (`prwlock-general.c`).

  While nobody holds the lock and some thread is blocked on a condition variable, another one has been
  woken and will look at the lock: a wake-up is owed to somebody.  A writer that unlocks wakes one writer
  or all readers, and the last reader wakes a writer; readers are blocked while nobody writes only if
  writers wait, so that a reader need not wake them.
-/
import Plibsys.Lock.RwlockGeneral

namespace Plibsys.Rwlock

open Interleaving

variable {ι : Type}

/-- A thread is blocked in `p_cond_variable_wait`. -/
def Blocked (c : RwConfig ι) (i : ι) : Prop :=
  c.loc i = .readWait ∧ i ∈ c.shared.read_cv ∨ c.loc i = .writeWait ∧ i ∈ c.shared.write_cv

/-- A thread has been woken, and is not yet back with the mutex. -/
def Woken (c : RwConfig ι) (i : ι) : Prop :=
  c.loc i = .readWait ∧ i ∉ c.shared.read_cv ∨ c.loc i = .writeWait ∧ i ∉ c.shared.write_cv

/-- Nobody holds the lock or runs in one of its functions, and some thread is blocked. -/
structure Stranded (c : RwConfig ι) : Prop where
  free : ∀ i, c.loc i ≠ .reading ∧ c.loc i ≠ .writing
  quiet : ∀ i, ¬ Woken c i
  blocked : ∃ i, Blocked c i

variable [Fintype ι] {c : RwConfig ι} {i : ι}

/-- A wake-up is owed to somebody. -/
structure Owed (c : RwConfig ι) : Prop where
  readers : ∀ i ∈ c.shared.read_cv, c.loc i = .readWait
  writers : ∀ i ∈ c.shared.write_cv, c.loc i = .writeWait
  awaited : c.tally (count .writing) = 0 → c.shared.read_cv.Nonempty → c.tally (count .writeWait) ≠ 0
  owed : c.tally (count .reading) = 0 → c.tally (count .writing) = 0 →
    c.shared.read_cv.Nonempty ∨ c.shared.write_cv.Nonempty → ∃ i, Woken c i

theorem exists_of_tally {p : Place} (h : c.tally (count p) ≠ 0) : ∃ i, c.loc i = p := by
  by_contra hnone
  exact h (tally_eq_zero fun i => if_neg fun hi => hnone ⟨i, hi⟩)

theorem not_stranded (h : Owed c) : ¬ Stranded c := by
  rintro ⟨hfree, hquiet, i, hblocked⟩
  have hzero : ∀ p : Place, p = .reading ∨ p = .writing → c.tally (count p) = 0 := by
    rintro p (rfl | rfl)
    · exact tally_eq_zero fun j => if_neg (hfree j).1
    · exact tally_eq_zero fun j => if_neg (hfree j).2
  obtain ⟨j, hj⟩ := h.owed (hzero _ (.inl rfl)) (hzero _ (.inr rfl))
    (hblocked.imp (fun hb => ⟨i, hb.2⟩) fun hb => ⟨i, hb.2⟩)
  exact hquiet j hj

variable [DecidableEq ι] {a : Choice ι} {s : PRWLock ι} {l : Place}

omit [Fintype ι] in
theorem woken_set {j : ι} (hj : j ≠ i) (h : Woken c j) (hread : s.read_cv ⊆ c.shared.read_cv)
    (hwrite : s.write_cv ⊆ c.shared.write_cv) : Woken (c.set i s l) j := by
  rw [Woken, loc_set_of_ne hj, shared_set]
  exact h.imp (fun hr => ⟨hr.1, fun hmem => hr.2 (hread hmem)⟩) fun hw => ⟨hw.1, fun hmem => hw.2 (hwrite hmem)⟩

omit [Fintype ι] in
theorem places_set {cv cv' : Finset ι} {p : Place} (h : ∀ j ∈ cv, c.loc j = p) (hcv : ∀ j ∈ cv', j ≠ i → j ∈ cv)
    (hi : i ∈ cv' → l = p) : ∀ j ∈ cv', (c.set i s l).loc j = p := by
  intro j hj
  by_cases hji : j = i
  · subst hji
    rw [loc_set_self]
    exact hi hj
  · rw [loc_set_of_ne hji]
    exact h j (hcv j hj hji)

theorem tally_same {p : Place} (hl : l ≠ p) (hi : c.loc i ≠ p) :
    (c.set i s l).tally (count p) = c.tally (count p) :=
  tally_set_of_eq s (by rw [count, count, if_neg hl, if_neg hi])

theorem present_set {p : Place} : (c.set i s p).tally (count p) ≠ 0 := Nat.ne_of_gt (present (i := i) loc_set_self)

namespace Owed

/-- The thread has become a holder: nothing is owed. -/
theorem set_begins (h : Owed c) (hl : l = .reading ∨ l = .writing) (hread : s.read_cv = c.shared.read_cv)
    (hwrite : s.write_cv = c.shared.write_cv) (hi : i ∉ c.shared.read_cv ∧ i ∉ c.shared.write_cv)
    (hawaited : l = .reading → c.loc i ≠ .writing ∧ c.loc i ≠ .writeWait) : Owed (c.set i s l) := by
  refine ⟨?_, ?_, ?_, ?_⟩
  · rw [shared_set, hread]
    exact places_set h.readers (fun _ hj _ => hj) fun hmem => absurd hmem hi.1
  · rw [shared_set, hwrite]
    exact places_set h.writers (fun _ hj _ => hj) fun hmem => absurd hmem hi.2
  · intro hW hne
    rcases hl with rfl | rfl
    · obtain ⟨hwriting, hwait⟩ := hawaited rfl
      rw [tally_same (by decide) hwriting] at hW
      rw [tally_same (by decide) hwait]
      rw [shared_set, hread] at hne
      exact h.awaited hW hne
    · exact absurd hW present_set
  · intro hR hW
    rcases hl with rfl | rfl
    · exact absurd hR present_set
    · exact absurd hW present_set

omit [DecidableEq ι] in
theorem notMem_read (h : Owed c) (hi : c.loc i ≠ .readWait) : i ∉ c.shared.read_cv :=
  fun hmem => hi (h.readers i hmem)

omit [DecidableEq ι] in
theorem notMem_write (h : Owed c) (hi : c.loc i ≠ .writeWait) : i ∉ c.shared.write_cv :=
  fun hmem => hi (h.writers i hmem)

omit [DecidableEq ι] in
/-- Nobody waits to write, and so nobody is blocked as a writer. -/
theorem write_cv_empty (h : Owed c) (hQ : c.tally (count .writeWait) = 0) : ¬ c.shared.write_cv.Nonempty := by
  rintro ⟨j, hj⟩
  exact Nat.ne_of_gt (present (h.writers j hj)) hQ

omit [DecidableEq ι] in
theorem read_cv_empty (h : Owed c) (hP : c.tally (count .readWait) = 0) : ¬ c.shared.read_cv.Nonempty := by
  rintro ⟨j, hj⟩
  exact Nat.ne_of_gt (present (h.readers j hj)) hP

/-- A call is refused. -/
theorem set_refused (h : Owed c) (hloc : c.loc i = .idle) (hread : s.read_cv = c.shared.read_cv)
    (hwrite : s.write_cv = c.shared.write_cv) : Owed (c.set i s .idle) := by
  have hsame : ∀ p : Place, p ≠ .idle → (c.set i s .idle).tally (count p) = c.tally (count p) := fun p hp =>
    tally_same hp.symm (by rw [hloc]; exact hp.symm)
  refine ⟨?_, ?_, ?_, ?_⟩
  · rw [shared_set, hread]
    exact places_set h.readers (fun _ hj _ => hj) fun hmem => absurd hmem (h.notMem_read (by rw [hloc]; decide))
  · rw [shared_set, hwrite]
    exact places_set h.writers (fun _ hj _ => hj) fun hmem => absurd hmem (h.notMem_write (by rw [hloc]; decide))
  · rw [hsame _ (by decide), hsame _ (by decide), shared_set, hread]
    exact h.awaited
  · rw [hsame _ (by decide), hsame _ (by decide), shared_set, hread, hwrite]
    intro hR hW hne
    obtain ⟨j, hj⟩ := h.owed hR hW hne
    have hji : j ≠ i := by
      rintro rfl
      rw [Woken, hloc] at hj
      rcases hj with ⟨hj, -⟩ | ⟨hj, -⟩ <;> cases hj
    exact ⟨j, woken_set hji hj hread.subset hwrite.subset⟩

/-- A reader blocks while somebody writes. -/
theorem set_waitRead (h : Owed c) (hloc : c.loc i = .idle ∨ c.loc i = .readWait)
    (hW : c.tally (count .writing) ≠ 0)
    (hread : s.read_cv = insert i c.shared.read_cv) (hwrite : s.write_cv = c.shared.write_cv) :
    Owed (c.set i s .readWait) := by
  have hwriting : (c.set i s .readWait).tally (count .writing) = c.tally (count .writing) :=
    tally_same (by decide) (by rcases hloc with hloc | hloc <;> rw [hloc] <;> decide)
  refine ⟨?_, ?_, ?_, ?_⟩
  · rw [shared_set, hread]
    exact places_set h.readers (fun _ hj hji => (Finset.mem_insert.1 hj).resolve_left hji) fun _ => rfl
  · rw [shared_set, hwrite]
    refine places_set h.writers (fun _ hj _ => hj) fun hmem => absurd hmem (h.notMem_write ?_)
    rcases hloc with hloc | hloc <;> rw [hloc] <;> decide
  · rw [hwriting]
    exact fun hzero => absurd hzero hW
  · rw [hwriting]
    exact fun _ hzero => absurd hzero hW

/-- A writer blocks while somebody holds the lock. -/
theorem set_waitWrite (h : Owed c) (hloc : c.loc i = .idle ∨ c.loc i = .writeWait)
    (hheld : c.tally (count .reading) ≠ 0 ∨ c.tally (count .writing) ≠ 0)
    (hread : s.read_cv = c.shared.read_cv) (hwrite : s.write_cv = insert i c.shared.write_cv) :
    Owed (c.set i s .writeWait) := by
  have hsame : ∀ p : Place, p = .reading ∨ p = .writing →
      (c.set i s .writeWait).tally (count p) = c.tally (count p) := by
    rintro p (rfl | rfl)
    · exact tally_same (by decide) (by rcases hloc with hloc | hloc <;> rw [hloc] <;> decide)
    · exact tally_same (by decide) (by rcases hloc with hloc | hloc <;> rw [hloc] <;> decide)
  refine ⟨?_, ?_, ?_, ?_⟩
  · rw [shared_set, hread]
    refine places_set h.readers (fun _ hj _ => hj) fun hmem => absurd hmem (h.notMem_read ?_)
    rcases hloc with hloc | hloc <;> rw [hloc] <;> decide
  · rw [shared_set, hwrite]
    exact places_set h.writers (fun _ hj hji => (Finset.mem_insert.1 hj).resolve_left hji) fun _ => rfl
  · exact fun _ _ => present_set
  · rw [hsame _ (.inl rfl), hsame _ (.inr rfl)]
    intro hR hW
    exact absurd hheld (not_or.2 ⟨not_not.2 hR, not_not.2 hW⟩)

/-- A thread is woken without a signal: it will look at the lock. -/
theorem set_wakes (h : Owed c) (hloc : c.loc i = .readWait ∧ s.read_cv = c.shared.read_cv.erase i ∧
      s.write_cv = c.shared.write_cv ∨
    c.loc i = .writeWait ∧ s.read_cv = c.shared.read_cv ∧ s.write_cv = c.shared.write_cv.erase i) :
    Owed (c.set i s (c.loc i)) := by
  have hsame : ∀ p : Place, (c.set i s (c.loc i)).tally (count p) = c.tally (count p) :=
    fun p => tally_set_of_eq s rfl
  have hread : s.read_cv ⊆ c.shared.read_cv := by
    rcases hloc with ⟨-, hread, -⟩ | ⟨-, hread, -⟩
    · exact hread ▸ Finset.erase_subset ..
    · exact hread.subset
  have hwrite : s.write_cv ⊆ c.shared.write_cv := by
    rcases hloc with ⟨-, -, hwrite⟩ | ⟨-, -, hwrite⟩
    · exact hwrite.subset
    · exact hwrite ▸ Finset.erase_subset ..
  refine ⟨?_, ?_, ?_, ?_⟩
  · exact places_set h.readers (fun _ hj _ => hread hj) fun hmem => h.readers i (hread hmem)
  · exact places_set h.writers (fun _ hj _ => hwrite hj) fun hmem => h.writers i (hwrite hmem)
  · rw [hsame, hsame]
    exact fun hW hne => h.awaited hW (hne.mono hread)
  · intro _ _ _
    refine ⟨i, ?_⟩
    rw [Woken, loc_set_self, shared_set]
    rcases hloc with ⟨hloc, hread, -⟩ | ⟨hloc, -, hwrite⟩
    · exact .inl ⟨hloc, hread ▸ Finset.notMem_erase i _⟩
    · exact .inr ⟨hloc, hwrite ▸ Finset.notMem_erase i _⟩

/-- A holder releases the lock. -/
theorem set_releases (h : Owed c) (hloc : c.loc i = .reading ∨ c.loc i = .writing)
    (hread : s.read_cv ⊆ c.shared.read_cv) (hwrite : s.write_cv ⊆ c.shared.write_cv)
    (hawaited : (c.set i s .idle).tally (count .writing) = 0 → s.read_cv.Nonempty → c.tally (count .writeWait) ≠ 0)
    (howed : (c.set i s .idle).tally (count .reading) = 0 → s.read_cv.Nonempty ∨ s.write_cv.Nonempty →
      ∃ j, Woken (c.set i s .idle) j) : Owed (c.set i s .idle) := by
  have hnot : c.loc i ≠ .readWait ∧ c.loc i ≠ .writeWait := by
    rcases hloc with hloc | hloc <;> rw [hloc] <;> decide
  refine ⟨?_, ?_, ?_, fun hR _ => howed hR⟩
  · exact places_set h.readers (fun _ hj _ => hread hj) fun hmem => absurd (hread hmem) (h.notMem_read hnot.1)
  · exact places_set h.writers (fun _ hj _ => hwrite hj) fun hmem => absurd (hwrite hmem) (h.notMem_write hnot.2)
  · rw [tally_same (p := .writeWait) (by decide) hnot.2]
    exact hawaited

/-- **The wake-ups are still owed after a step.** -/
theorem step (h : Owed c) (hexclusive : c.tally (count .writing) = 0 ∨ c.tally (count .writing) = 1 ∧
    c.tally (count .reading) = 0)
    (ha : a ≠ .waitFails) (heffect : Effect c i a s.read_cv s.write_cv l) : Owed (c.set i s l) := by
  obtain ⟨active_threads, waiting_threads, read_cv, write_cv⟩ := s
  dsimp only at heffect
  cases heffect with
  | refused hloc => exact h.set_refused hloc rfl rfl
  | beginRead hloc hW =>
    refine h.set_begins (.inl rfl) rfl rfl ?_ ?_
    · rcases hloc with hloc | ⟨hloc, hwoken⟩
      · exact ⟨h.notMem_read (by rw [hloc]; decide), h.notMem_write (by rw [hloc]; decide)⟩
      · exact ⟨hwoken, h.notMem_write (by rw [hloc]; decide)⟩
    · intro _
      rcases hloc with hloc | ⟨hloc, -⟩ <;> exact ⟨by rw [hloc]; decide, by rw [hloc]; decide⟩
  | waitRead hloc hW => exact h.set_waitRead (hloc.imp_right And.left) hW rfl rfl
  | readWakes hloc =>
    rw [← hloc]
    exact h.set_wakes (.inl ⟨hloc, rfl, rfl⟩)
  | readFails hloc hfails => exact absurd hfails ha
  | beginWrite hloc hzero =>
    refine h.set_begins (.inr rfl) rfl rfl ?_ fun hl => by cases hl
    rcases hloc with hloc | ⟨hloc, hwoken⟩
    · exact ⟨h.notMem_read (by rw [hloc]; decide), h.notMem_write (by rw [hloc]; decide)⟩
    · exact ⟨h.notMem_read (by rw [hloc]; decide), hwoken⟩
  | waitWrite hloc hheld => exact h.set_waitWrite (hloc.imp_right And.left) hheld rfl rfl
  | writeWakes hloc =>
    rw [← hloc]
    exact h.set_wakes (.inr ⟨hloc, rfl, rfl⟩)
  | writeFails hloc hfails => exact absurd hfails ha
  | endRead hloc hlast =>
    have hpresent := present hloc
    have hW : c.tally (count .writing) = 0 := by omega
    refine h.set_releases (.inl hloc) subset_rfl subset_rfl (fun _ => h.awaited hW) fun hR hne => ?_
    have hreading := tally_set (count .reading) c i ⟨active_threads, waiting_threads, c.shared.read_cv,
      c.shared.write_cv⟩ .idle
    rw [hloc, hR] at hreading
    have hone : c.tally (count .reading) = 1 := hreading.symm
    have hQ : c.tally (count .writeWait) = 0 := hlast.resolve_left fun hne => hne hone
    rcases hne with hne | hne
    · exact absurd hQ (h.awaited hW hne)
    · exact absurd hne (h.write_cv_empty hQ)
  | signalWriter woken hloc hQ hwoken hsub =>
    refine h.set_releases (hloc.imp_left And.left) subset_rfl Finset.sdiff_subset (fun _ _ => hQ) fun _ _ => ?_
    have hj : ∃ j, c.loc j = .writeWait ∧ j ∉ c.shared.write_cv \ woken := by
      by_cases hne : c.shared.write_cv.Nonempty
      · obtain ⟨j, hj⟩ := hwoken hne
        exact ⟨j, h.writers j (hsub hj), fun hmem => (Finset.mem_sdiff.1 hmem).2 hj⟩
      · obtain ⟨j, hj⟩ := exists_of_tally hQ
        exact ⟨j, hj, fun hmem => hne ⟨j, (Finset.mem_sdiff.1 hmem).1⟩⟩
    obtain ⟨j, hj, hmem⟩ := hj
    have hji : j ≠ i := by
      rintro rfl
      rw [hj] at hloc
      rcases hloc with ⟨hloc, -⟩ | hloc <;> cases hloc
    exact ⟨j, .inr ⟨(loc_set_of_ne hji).trans hj, hmem⟩⟩
  | broadcastReaders hloc hQ hP =>
    refine h.set_releases (.inr hloc) (Finset.empty_subset _) subset_rfl (fun _ hne => ?_) fun _ hne => ?_
    · exact absurd hne Finset.not_nonempty_empty
    · rcases hne with hne | hne
      · exact absurd hne Finset.not_nonempty_empty
      · exact absurd hne (h.write_cv_empty hQ)
  | endWrite hloc hQ hP =>
    refine h.set_releases (.inr hloc) subset_rfl subset_rfl (fun _ hne => ?_) fun _ hne => ?_
    · exact absurd hne (h.read_cv_empty hP)
    · exact absurd hne (not_or.2 ⟨h.read_cv_empty hP, h.write_cv_empty hQ⟩)

omit [DecidableEq ι] in
variable (ι) in
theorem new : Owed (new ι) where
  readers _ hmem := absurd hmem (Finset.notMem_empty _)
  writers _ hmem := absurd hmem (Finset.notMem_empty _)
  awaited _ hne := absurd hne Finset.not_nonempty_empty
  owed _ _ hne := absurd hne (not_or.2 ⟨Finset.not_nonempty_empty, Finset.not_nonempty_empty⟩)

theorem of_run (hcard : Fintype.card ι < 2 ^ 15) {xs : List (ι × Choice ι)} (hok : ∀ x ∈ xs, x.2 ≠ .waitFails)
    (hrun : run Rwlock.step (Rwlock.new ι) xs = some c) : Owed c := by
  have hboth : Inv c ∧ Owed c := by
    have halong : Along Rwlock.step (fun _ x => x.2 ≠ .waitFails) (Rwlock.new ι) xs := .of_mem hok _
    refine run_invariant_along (I := fun c => Inv c ∧ Owed c) ?_ ⟨Inv.new ι, new ι⟩ halong hrun
    rintro c i a s l ⟨hinv, howed⟩ ha hstep
    obtain ⟨hinv', heffect⟩ := hinv.step (.of_card hcard _ _) hstep
    exact ⟨hinv', howed.step hinv.exclusive ha heffect⟩
  exact hboth.2

end Owed

/-- **Nobody is left behind** while waits do not fail. -/
theorem rwlock_not_stranded {ι : Type} [Fintype ι] [DecidableEq ι] (hcard : Fintype.card ι < 32768)
    {xs : List (ι × Choice ι)} (hok : ∀ x ∈ xs, x.2 ≠ .waitFails) {c : RwConfig ι}
    (hrun : run step (new ι) xs = some c) : ¬ Stranded c := not_stranded (.of_run hcard hok hrun)

/-- A writer unlocks for another one. -/
theorem rwlock_not_stranded_two : ∃ c, run step (new (Fin 2))
    [(0, .writerLock), (1, .writerLock), (0, .writerUnlock {1})] = some c ∧ Woken c 1 ∧ ¬ Stranded c :=
  have hrun : ∃ c, run step (new (Fin 2)) [(0, .writerLock), (1, .writerLock), (0, .writerUnlock {1})] = some c ∧
    c.loc 1 = .writeWait ∧ 1 ∉ c.shared.write_cv := ⟨_, rfl, rfl, by decide⟩
  hrun.elim fun c hc => ⟨c, hc.1, .inr hc.2, rwlock_not_stranded (by decide) (by decide) hc.1⟩

end Plibsys.Rwlock
