/-
  When a thread waits for ever for a free read-write lock for Windows XP (`prwlock-win.c`).

  The last reader sets the event before its exchange, and only if the word that it has read counts a
  waiter.  In between, the waiter may be woken by this event, spin, and go back to sleep, so that the word is
  again the one that the reader has read: then the exchange succeeds, and nobody is woken any more.
  As long as the event is still set then, or some thread is awake, a wake-up is owed to somebody.
-/
import Mathlib.Data.Fin.VecNotation
import Plibsys.Lock.RwlockXp

namespace Plibsys.RwlockXp

open Interleaving

variable {ι : Type}

/-- Nobody holds the lock or runs in one of the calls, the event is not set, and some thread is blocked in
    `WaitForSingleObject`. -/
structure Stranded (c : XpConfig ι) : Prop where
  quiet : ∀ i, c.loc i = .idle ∨ ∃ side, c.loc i = .start side .wait
  unset : c.shared.event = false
  blocked : ∃ i side, c.loc i = .start side .wait

/-- The event is set, or some thread runs in `pp_rwlock_start_read_xp` or `pp_rwlock_start_write_xp`. -/
def Woken (c : XpConfig ι) : Prop := c.shared.event ∨ ∃ i, (c.loc i).awake

instance [Fintype ι] (c : XpConfig ι) : Decidable (Woken c) := inferInstanceAs (Decidable (_ ∨ ∃ _, _))

/-- When the exchange of the last reader succeeds and the word counts a waiter, the wake-up is not used up. -/
def Signalled (c : XpConfig ι) (x : ι × Choice) : Prop :=
  c.loc x.1 = .endRead (.cas c.shared.lock) → rwlockXpReaderCount c.shared.lock = 1 →
    rwlockXpWaitingCount c.shared.lock ≠ 0 → Woken c

instance [Fintype ι] (c : XpConfig ι) (x : ι × Choice) : Decidable (Signalled c x) :=
  inferInstanceAs (Decidable (_ → _ → _ → _))

section
variable [Fintype ι] {c : XpConfig ι} {i : ι} {s : PRWLockXP} {l : Place} {a : Choice}

/-- While nobody holds the lock, somebody is woken if there are waiters. -/
def Owed (c : XpConfig ι) : Prop :=
  c.tally (count (Place.holds .read)) = 0 → c.tally (count (Place.holds .write)) = 0 →
    c.tally (count Place.waits) ≠ 0 → Woken c

theorem not_stranded (h : Owed c) : ¬ Stranded c := by
  rintro ⟨hquiet, hunset, i, side, hblocked⟩
  have hnone : ∀ side, c.tally (count (Place.holds side)) = 0 := by
    intro side
    refine tally_eq_zero fun j => if_neg ?_
    rcases hquiet j with hj | ⟨side', hj⟩ <;> rw [hj] <;> exact Bool.false_ne_true
  have hwaits : 0 < c.tally (count Place.waits) := present (i := i) (by rw [hblocked]; rfl)
  rcases h (hnone .read) (hnone .write) (Nat.ne_of_gt hwaits) with hevent | ⟨j, hawake⟩
  · rw [hunset] at hevent
    cases hevent
  · rcases hquiet j with hj | ⟨side', hj⟩ <;> rw [hj] at hawake <;> cases hawake

variable [DecidableEq ι]

omit [Fintype ι] in
/-- Somebody is still woken, unless it was the thread that has made the step. -/
theorem Woken.set (h : Woken c) (hevent : c.shared.event → s.event) (hawake : (c.loc i).awake → l.awake) :
    Woken (c.set i s l) := by
  rcases h with hset | ⟨j, hj⟩
  · exact .inl (hevent hset)
  · refine .inr ⟨j, ?_⟩
    by_cases hji : j = i
    · subst hji
      rw [loc_set_self]
      exact hawake hj
    · rwa [loc_set_of_ne hji]

omit [Fintype ι] in
theorem Woken.self (hl : l.awake) : Woken (c.set i s l) := .inr ⟨i, by rwa [loc_set_self]⟩

namespace Owed

/-- **A wake-up is still owed after a step**, if the last reader's is not used up. -/
theorem step (h : Owed c) (hinv : Inv c) (hok : Signalled c (i, a)) (heffect : Effect c i a s l) :
    Owed (c.set i s l) := by
  have hreads := tally_set (count (Place.holds .read)) c i s l
  have hwrites := tally_set (count (Place.holds .write)) c i s l
  have hwaits := tally_set (count Place.waits) c i s l
  intro hR hW hQ
  cases heffect with
  | moves event l hholds hsame hevent hawake hside hl =>
    rw [count_congr (hholds .read)] at hreads
    rw [count_congr (hholds .write)] at hwrites
    rw [count_congr hsame] at hwaits
    exact (h (by omega) (by omega) (by omega)).set hevent hawake
  | wakes event side hloc => exact .self rfl
  | enters side hfree hout hnot hside =>
    have hheld : 0 < (c.set i ⟨side.counter c.shared.lock, c.shared.event⟩ (.held side)).tally
        (count (Place.holds side)) :=
      present (i := i) (by rw [loc_set_self]; exact decide_eq_true rfl)
    cases side with
    | read => exact absurd hR (Nat.ne_of_gt hheld)
    | write => exact absurd hW (Nat.ne_of_gt hheld)
  | waits side n hloc hfree =>
    -- a thread goes to sleep only if the lock is held
    rw [hloc] at hreads hwrites
    have hR' : c.tally (count (Place.holds .read)) = 0 := hreads.symm.trans hR
    have hW' : c.tally (count (Place.holds .write)) = 0 := hwrites.symm.trans hW
    refine absurd ?_ hfree
    cases side with
    | read => exact (free_read hinv.word).2 (by rw [hW'])
    | write => exact (free_write hinv.word).2 ⟨hR', by rw [hW']⟩
  | waited side hloc => exact .self rfl
  | endsRead hloc hpositive =>
    have hpresent : 0 < c.tally (count (Place.holds .read)) := present (i := i) (by rw [hloc]; rfl)
    rw [hloc] at hreads hwaits
    have hone : c.tally (count (Place.holds .read)) = 1 := by
      rw [hR] at hreads
      exact hreads.symm
    have hwaiting : c.tally (count Place.waits) ≠ 0 := fun hzero => hQ (hwaits.trans hzero)
    have hcount : rwlockXpReaderCount c.shared.lock = 1 := BitVec.eq_of_toNat_eq (hinv.word.readerCount.trans hone)
    have hcounted : rwlockXpWaitingCount c.shared.lock ≠ 0 := by
      intro hzero
      have hmid := hinv.word.writerCount
      rw [show rwlockWriterCount c.shared.lock = 0 from hzero] at hmid
      exact hwaiting hmid.symm
    exact (hok hloc hcount hcounted).set id (by rw [hloc]; exact nofun)
  | endsWrite hloc hnone =>
    rw [hloc] at hwaits
    have hmid := hinv.word.writerCount
    rw [show rwlockWriterCount c.shared.lock = 0 from hnone] at hmid
    exact absurd (hwaits.trans hmid.symm) hQ
  | leavesRead hloc hzero => exact absurd hzero (hinv.readerCount_ne_zero (i := i) (by rw [hloc]; rfl))
  | leavesWrite hloc hnone => exact absurd (hinv.isWriter (i := i) (by rw [hloc]; rfl)) hnone

theorem of_run (hcard : Fintype.card ι < 2 ^ 15) {xs : List (ι × Choice)}
    (hok : Along RwlockXp.step Signalled (new ι) xs)
    (hrun : run RwlockXp.step (new ι) xs = some c) : Owed c := by
  have hboth : Inv c ∧ Owed c := by
    refine run_invariant_along (I := fun c => Inv c ∧ Owed c) ?_ ⟨Inv.new ι, ?_⟩ hok hrun
    · rintro c i a s l ⟨hinv, howed⟩ ha hstep
      have heffect := Effect.of_step (hinv.fits i) hstep
      exact ⟨hinv.step heffect ((tally_le_card (count_le_one _)).trans_lt hcard)
        ((tally_le_card (count_le_one _)).trans_lt hcard), howed.step hinv ha heffect⟩
    · intro _ _ hwaits
      exact absurd (tally_eq_zero fun _ => rfl) hwaits
  exact hboth.2

end Owed

end

/-- **Nobody is left behind** in a run in which the last reader's wake-up is never used up. -/
theorem rwlockXp_not_stranded {ι : Type} [Fintype ι] [DecidableEq ι] (hcard : Fintype.card ι < 32768)
    {xs : List (ι × Choice)} (hok : Along step Signalled (new ι) xs) {c : XpConfig ι}
    (hrun : run step (new ι) xs = some c) : ¬ Stranded c := not_stranded (.of_run hcard hok hrun)

/-- Two readers, one after the other. -/
theorem rwlockXp_not_stranded_two : ∃ c, run step (new (Fin 2))
    [(0, .lock .read), (0, .go), (0, .go), (1, .trylock .read), (1, .go), (0, .unlock), (0, .go), (0, .go),
    (1, .go)] =
      some c ∧ ¬ Stranded c :=
  have hok : Along step Signalled (new (Fin 2)) [(0, .lock .read), (0, .go), (0, .go), (1, .trylock .read),
    (1, .go),
    (0, .unlock), (0, .go), (0, .go), (1, .go)] := by decide
  ⟨_, rfl, rwlockXp_not_stranded (by decide) hok rfl⟩

/-! ## A wake-up that is used up -/

section
variable [DecidableEq ι] {c : XpConfig ι} {i : ι} {side : Side} {s : PRWLockXP} {l : Place}

/-- The thread makes one step of `startXp`. -/
theorem startStep {p : Start} (hloc : c.loc i = .start side p) (hs : startXp side .go c.shared p = some (s, l)) :
    Reaches step c (c.set i s l) := by
  have hstep : step i .go c.shared (c.loc i) = some (s, l) := by
    rw [hloc, step_start]
    exact hs
  exact .of_step hstep

/-- A thread that is not let in spins. -/
theorem spins (hfree : ¬ side.free c.shared.lock) {k n : ℕ} (hloc : c.loc i = .start side (.get k))
    (hle : k + n ≤ rwlockXpMaxSpin) : Reaches step c (c.set i c.shared (.start side (.get (k + n)))) := by
  induction n with
  | zero =>
    rw [Nat.add_zero, ← hloc, set_same]
    exact .refl c
  | succ n ih =>
    have hlt : k + n < rwlockXpMaxSpin := by omega
    have hget : startXp side .go c.shared (.get (k + n)) = some (c.shared, .start side (.get (k + (n + 1)))) := by
      rw [startXp, if_neg (by decide), if_neg hfree, if_pos hlt, Nat.add_assoc]
    have h := (ih (by omega)).trans (startStep loc_set_self hget)
    rwa [set_set] at h

/-- A thread that is not let in goes to sleep. -/
theorem sleeps (hfree : ¬ side.free c.shared.lock) {k : ℕ} (hloc : c.loc i = .start side (.get k))
    (hle : k ≤ rwlockXpMaxSpin) : Reaches step c (c.set i
      ⟨rwlockXpSetWaiting c.shared.lock (rwlockXpWaitingCount c.shared.lock + 1),
        c.shared.event⟩ (.start side .wait)) := by
  obtain ⟨n, hn⟩ := Nat.exists_eq_add_of_le hle
  have hspins := spins hfree hloc (Nat.le_of_eq hn.symm)
  rw [← hn] at hspins
  have hget : startXp side .go c.shared (.get rwlockXpMaxSpin) =
      some (c.shared, .start side (.waitCas rwlockXpMaxSpin c.shared.lock)) := by
    rw [startXp, if_neg (by decide), if_neg hfree, if_neg (Nat.lt_irrefl _)]
  have hcas : startXp side .go c.shared (.waitCas rwlockXpMaxSpin c.shared.lock) =
      some (⟨rwlockXpSetWaiting c.shared.lock (rwlockXpWaitingCount c.shared.lock + 1), c.shared.event⟩,
        .start side .wait) := by
    rw [startXp, if_neg (by decide)]
    dsimp only
    rw [compareAndExchange, if_pos rfl]
  have h := (hspins.trans (startStep loc_set_self hget)).trans (startStep loc_set_self hcas)
  rwa [set_set, set_set] at h

end

theorem config_eq {c : XpConfig (Fin 2)} {s : PRWLockXP} {l₀ l₁ : Place} (hs : c.shared = s) (h0 : c.loc 0 = l₀)
    (h1 : c.loc 1 = l₁) : c = ⟨s, ![l₀, l₁]⟩ := by
  obtain ⟨shared, loc⟩ := c
  subst hs h0 h1
  congr
  funext i
  cases i using Fin.cases with
  | zero => rfl
  | succ i =>
    rw [Subsingleton.elim i 0]
    rfl

/-- A writer sleeps while a reader holds the lock; the reader's event wakes it, but it sleeps again before the
    exchange. -/
theorem rwlockXp_stranded : ∃ c, Reaches step (new (Fin 2)) c ∧ Stranded c := by
  have hheld : Reaches step (new (Fin 2)) ⟨⟨1, false⟩, ![.held .read, .start .write (.get 0)]⟩ :=
    ⟨[(0, .lock .read), (0, .go), (0, .go), (1, .lock .write)], congrArg some (config_eq rfl rfl rfl)⟩
  have hasleep : Reaches step (new (Fin 2)) ⟨⟨0x8001, false⟩, ![.held .read, .start .write .wait]⟩ :=
    (hheld.trans (sleeps (i := 1) (by decide) rfl (Nat.zero_le _))).trans ⟨[],
    congrArg some (config_eq rfl rfl rfl)⟩
  -- the event is set, and the writer is woken
  have hwoken : Reaches step (new (Fin 2)) ⟨⟨1, false⟩, ![.endRead (.cas 0x8001), .start .write (.get 1)]⟩ :=
    hasleep.trans ⟨[(0, .unlock), (0, .go), (0, .go), (1, .go), (1, .go), (1, .go)],
      congrArg some (config_eq rfl rfl rfl)⟩
  have hagain : Reaches step (new (Fin 2)) ⟨⟨0x8001, false⟩, ![.endRead (.cas 0x8001), .start .write .wait]⟩ :=
    (hwoken.trans (sleeps (i := 1) (by decide) rfl (by decide))).trans ⟨[], congrArg some (config_eq rfl rfl rfl)⟩
  have hfree : Reaches step (new (Fin 2)) ⟨⟨0x8000, false⟩, ![.idle, .start .write .wait]⟩ :=
    hagain.trans ⟨[(0, .go)], congrArg some (config_eq rfl rfl rfl)⟩
  refine ⟨_, hfree, ?_, rfl, 1, .write, rfl⟩
  intro i
  cases i using Fin.cases with
  | zero => exact .inl rfl
  | succ i =>
    rw [Subsingleton.elim i 0]
    exact .inr ⟨.write, rfl⟩

end Plibsys.RwlockXp
