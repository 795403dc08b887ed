/-
  How many readers the read-write lock for Windows XP can count (`prwlock-win.c`), and both locks together.

  Readers only: as long as there are fewer than 2^15 of them, the word is their number.  The next one carries into
  the field of the waiters, and from then on the word counts a waiter that nobody is.
-/
import Plibsys.Lock.RwlockReaders
import Plibsys.Lock.RwlockXp

namespace Plibsys.RwlockXp

open Interleaving

variable {ι : Type}

/-- Readers only, and none of them waits. -/
structure Quiet (c : XpConfig ι) : Prop where
  readers : ∀ i, (c.loc i).onSide .read
  awake : ∀ i, (c.loc i).waits = false
  fits : ∀ i, (c.loc i).Fits

variable [DecidableEq ι] {c : XpConfig ι} {i : ι} {s : PRWLockXP} {l : Place} {a : Choice} {side : Side}

/-! ## Calls that are not disturbed -/

/-- A thread that is let in gets the lock. -/
theorem acquires (hfree : side.free c.shared.lock) (hloc : c.loc i = .idle) :
    run step c [(i, .lock side), (i, .go), (i, .go)] =
      some (c.set i ⟨side.counter c.shared.lock, c.shared.event⟩ (.held side)) := by
  have hcall : run step c [(i, .lock side)] = some (c.set i c.shared (.start side (.get 0))) :=
    run_of_step (by rw [hloc]; rfl)
  have hget : step i .go c.shared (.start side (.get 0)) =
    some (c.shared, .start side (.cas 0 c.shared.lock)) := by
    rw [step_start, startXp, if_neg (by decide), if_pos hfree]
  have hcas : step i .go c.shared (.start side (.cas 0 c.shared.lock)) =
      some (⟨side.counter c.shared.lock, c.shared.event⟩, .held side) := by
    rw [step_start, startXp, if_neg (by decide), compareAndExchange, if_pos rfl]
  exact run_trans hcall (run_trans (run_set hget) (run_set hcas))

theorem acquires_try (hfree : side.free c.shared.lock) (hloc : c.loc i = .idle) :
    run step c [(i, .trylock side), (i, .go), (i, .go)] =
      some (c.set i ⟨side.counter c.shared.lock, c.shared.event⟩ (.held side)) := by
  have hcall : run step c [(i, .trylock side)] = some (c.set i c.shared (.startTry side .get)) :=
    run_of_step (by rw [hloc]; rfl)
  have hget : step i .go c.shared (.startTry side .get) =
    some (c.shared, .startTry side (.cas c.shared.lock)) := by
    rw [step_startTry, startTryXp, if_neg (by decide), if_pos hfree]
  have hcas : step i .go c.shared (.startTry side (.cas c.shared.lock)) =
      some (⟨side.counter c.shared.lock, c.shared.event⟩, .held side) := by
    rw [step_startTry, startTryXp, if_neg (by decide), compareAndExchange, if_pos rfl]
  exact run_trans hcall (run_trans (run_set hget) (run_set hcas))

/-! ## Steps of readers -/

omit [DecidableEq ι] in
/-- **What a reader's step does** to the word. -/
inductive Reads (c : XpConfig ι) (i : ι) : puint32 → Place → Prop where
  | moves (l : Place) : (l.holds .read → (c.loc i).holds .read) →
      (rwlockXpReaderCount c.shared.lock ≠ 0 → l.holds .read = (c.loc i).holds .read) → Reads c i c.shared.lock l
  | begins : (c.loc i).holds .read = false → Reads c i (Side.read.counter c.shared.lock) (.held .read)
  | ends : rwlockXpReaderCount c.shared.lock ≠ 0 → (c.loc i).holds .read →
      Reads c i (rwlockXpSetReaders c.shared.lock (rwlockXpReaderCount c.shared.lock - 1)) .idle

namespace Quiet

theorem step (h : Quiet c) (hwriter : ¬ rwlockXpIsWriter c.shared.lock) (ha : c.loc i = .idle → a.onSide .read)
    (hstep : step i a c.shared (c.loc i) = some (s, l)) : Quiet (c.set i s l) ∧ Reads c i s.lock l := by
  have heffect := Effect.of_step (h.fits i) hstep
  have hside := heffect.onSide (h.readers i) ha
  have hset : l.waits = false → Quiet (c.set i s l) := fun hl =>
    ⟨forall_set (P := fun _ p => Place.onSide .read p) hside fun j _ => h.readers j,
      forall_set (P := fun _ p => Place.waits p = false) hl fun j _ => h.awake j,
      forall_set (P := fun _ => Place.Fits) heffect.fits fun j _ => h.fits j⟩
  have hread := h.readers i
  have hawake := h.awake i
  cases heffect with
  | moves event l hholds hwaits hevent hstill hside hfits =>
    refine ⟨hset (hwaits.trans hawake), .moves l ?_ fun _ => hholds .read⟩
    rw [hholds]
    exact id
  | wakes event side hloc =>
    rw [hloc] at hawake
    cases hawake
  | enters side hfree hout hnot hsame =>
    obtain rfl : side = .read := hsame .read hread
    exact ⟨hset rfl, .begins (hout .read)⟩
  | waits side n hloc hfree =>
    -- a reader waits only if there is a writer
    rw [hloc] at hread
    obtain rfl : side = .read := of_decide_eq_true hread
    refine absurd ?_ hfree
    rw [Side.free, Bool.not_eq_true', ← Bool.not_eq_true]
    exact hwriter
  | waited side hloc =>
    rw [hloc] at hawake
    cases hawake
  | endsRead hloc hcount => exact ⟨hset rfl, .ends hcount (by rw [hloc]; rfl)⟩
  | endsWrite hloc hzero =>
    rw [hloc] at hread
    cases hread
  | leavesRead hloc hzero =>
      exact ⟨hset rfl, .moves .idle (fun hidle => by cases hidle) fun hcount => absurd hzero hcount⟩
  | leavesWrite hloc hnone =>
    rw [hloc] at hread
    cases hread

end Quiet

/-! ## The word of the readers -/

variable [Fintype ι]

/-- **The word is the number of the readers**: there is no writer and no waiter, no writer gets the lock while
    there are readers, and a writer gets it when they have unlocked. -/
structure CountsReaders (c : XpConfig ι) : Prop where
  readers : (rwlockXpReaderCount c.shared.lock).toNat = holders .read c
  writer : ¬ rwlockXpIsWriter c.shared.lock
  waiters : rwlockXpWaitingCount c.shared.lock = 0
  refused : 0 < holders .read c → ∀ w zs c', c.loc w = .idle → (∀ z ∈ zs, z.1 = w ∧ z.2.onSide .write) →
    run step c zs = some c' → ¬ (c'.loc w).holds .write
  freed : ∀ ys c', Along step (fun c y => (c.loc y.1).holds .read) c ys → run step c ys = some c' →
    holders .read c' = 0 →
    c'.shared.lock = 0 ∧ ∀ w, c'.loc w = .idle →
      (∃ c'', run step c' [(w, .lock .write), (w, .go), (w, .go)] = some c'' ∧ c''.loc w = .held .write) ∧
      ∃ c'', run step c' [(w, .trylock .write), (w, .go), (w, .go)] = some c'' ∧ c''.loc w = .held .write

/-- The word is the number of the readers. -/
structure Counted (c : XpConfig ι) : Prop where
  quiet : Quiet c
  word : Packs c.shared.lock (holders .read c) 0 0

omit [DecidableEq ι] [Fintype ι] in
/-- The number of the readers has spilled into the field of the waiters. -/
structure Spilled (c : XpConfig ι) : Prop where
  quiet : Quiet c
  writer : ¬ rwlockXpIsWriter c.shared.lock
  waiters : rwlockXpWaitingCount c.shared.lock ≠ 0

theorem holders_set (side : Side) (c : XpConfig ι) (i : ι) (s : PRWLockXP) (l : Place) :
    holders side (c.set i s l) + count (Place.holds side) (c.loc i) =
      holders side c + count (Place.holds side) l := by
  rw [← tally_holds, ← tally_holds]
  exact tally_set (count (Place.holds side)) c i s l

namespace Counted

omit [DecidableEq ι] in
theorem writer (h : Counted c) : ¬ rwlockXpIsWriter c.shared.lock := by
  rw [h.word.isWriter]
  decide

omit [DecidableEq ι] in
theorem waiters (h : Counted c) : rwlockXpWaitingCount c.shared.lock = 0 :=
  BitVec.eq_of_toNat_eq h.word.writerCount

omit [DecidableEq ι] in
theorem holders_pos {side : Side} (hi : (c.loc i).holds side) : 0 < holders side c := by
  rw [← tally_holds]
  exact present hi

omit [DecidableEq ι] in
theorem readerCount_ne_zero (h : Counted c) (hi : (c.loc i).holds .read) :
    rwlockXpReaderCount c.shared.lock ≠ 0 := by
  intro hzero
  have hcount := h.word.readerCount
  rw [show rwlockReaderCount c.shared.lock = 0 from hzero] at hcount
  exact Nat.ne_of_lt (holders_pos hi) hcount

/-- A reader gets the lock. -/
theorem begins (h : Counted c) (hquiet : Quiet (c.set i s (.held .read))) (hout : (c.loc i).holds .read = false)
    (hlock : s.lock = Side.read.counter c.shared.lock) :
    (holders .read (c.set i s (.held .read)) < 32768 → Counted (c.set i s (.held .read))) ∧
      (¬ holders .read (c.set i s (.held .read)) < 32768 → Spilled (c.set i s (.held .read))) := by
  have hnumber : holders .read (c.set i s (.held .read)) = holders .read c + 1 := by
    have hset := holders_set .read c i s (.held .read)
    rw [show count (Place.holds .read) (c.loc i) = 0 from if_neg (by rw [hout]; decide)] at hset
    exact hset
  rw [hnumber]
  constructor
  · intro hlt
    refine ⟨hquiet, ?_⟩
    rw [shared_set, hlock, hnumber]
    exact h.word.addReader hlt
  · intro hge
    have hfull : c.shared.lock = 0x7FFF := by
      obtain ⟨hlt, -, hword⟩ := h.word
      refine BitVec.eq_of_toNat_eq ?_
      rw [hword]
      show _ = 32767
      omega
    refine ⟨hquiet, ?_, ?_⟩
    · rw [shared_set, hlock, hfull]
      decide
    · rw [shared_set, hlock, hfull]
      decide

/-- A reader releases the lock. -/
theorem ends (h : Counted c) (hquiet : Quiet (c.set i s .idle)) (hheld : (c.loc i).holds .read)
    (hlock : s.lock = rwlockXpSetReaders c.shared.lock (rwlockXpReaderCount c.shared.lock - 1)) :
    Counted (c.set i s .idle) := by
  have hnumber : holders .read (c.set i s .idle) + 1 = holders .read c := by
    have hset := holders_set .read c i s .idle
    rw [show count (Place.holds .read) (c.loc i) = 1 from if_pos hheld] at hset
    exact hset
  have hsub := h.word.subReader (holders_pos hheld)
  refine ⟨hquiet, ?_⟩
  rw [shared_set, hlock]
  rwa [← hnumber, Nat.add_sub_cancel] at hsub

/-- **A reader's step** keeps the word the number of the readers, or the number spills. -/
theorem step (h : Counted c) (ha : c.loc i = .idle → a.onSide .read)
    (hstep : step i a c.shared (c.loc i) = some (s, l)) :
    (holders .read (c.set i s l) < 32768 → Counted (c.set i s l)) ∧
      (¬ holders .read (c.set i s l) < 32768 → Spilled (c.set i s l)) := by
  obtain ⟨hquiet, hreads⟩ := h.quiet.step h.writer ha hstep
  have hset := holders_set .read c i s l
  obtain ⟨lock, event⟩ := s
  dsimp only at hreads
  cases hreads with
  | moves l hholds hsame =>
    have hequal : l.holds .read = (c.loc i).holds .read := by
      by_cases hheld : (c.loc i).holds .read
      · exact hsame (h.readerCount_ne_zero hheld)
      · rw [Bool.eq_false_of_not_eq_true hheld, Bool.eq_false_of_not_eq_true (mt hholds hheld)]
    rw [count_congr hequal] at hset
    have hcounted : Counted (c.set i ⟨c.shared.lock, event⟩ l) := by
      refine ⟨hquiet, ?_⟩
      rw [Nat.add_right_cancel hset]
      exact h.word
    exact ⟨fun _ => hcounted, fun hge => absurd hcounted.word.lo_lt hge⟩
  | begins hout => exact h.begins hquiet hout rfl
  | ends hcount hheld =>
    have hcounted := h.ends hquiet hheld rfl
    exact ⟨fun _ => hcounted, fun hge => absurd hcounted.word.lo_lt hge⟩

/-! ## A writer among the readers -/

omit [DecidableEq ι] in
/-- The places and the word are right. -/
theorem inv (h : Counted c) : Inv c := by
  have hnone : c.tally (count (Place.holds .write)) = 0 := tally_eq_zero fun j =>
    if_neg (by rw [holds_of_onSide (h.quiet.readers j) (by decide)]; decide)
  have hawake : c.tally (count Place.waits) = 0 := tally_eq_zero fun j => if_neg (by rw [h.quiet.awake j]; decide)
  refine ⟨?_, .inl hnone, h.quiet.fits⟩
  rw [hnone, hawake, tally_holds]
  exact h.word

/-- **A writer does not get the lock** while there are readers. -/
theorem refused (h : Counted c) (hpos : 0 < holders .read c) {w : ι} {zs : List (ι × Choice)} {c' : XpConfig ι}
    (hloc : c.loc w = .idle) (hzs : ∀ z ∈ zs, z.1 = w ∧ z.2.onSide .write)
    (hrun : run RwlockXp.step c zs = some c') :
    ¬ (c'.loc w).holds .write := by
  have halong : Along RwlockXp.step (fun _ z => z.1 = w ∧ z.2.onSide .write) c zs := .of_mem hzs c
  have hkept : Inv c' ∧ holders .read c' = holders .read c ∧ (∀ j, j ≠ w → (c'.loc j).waits = false) ∧
      (c'.loc w).onSide .write := by
    refine run_invariant_along (I := fun c' => Inv c' ∧ holders .read c' = holders .read c ∧
      (∀ j, j ≠ w → (c'.loc j).waits = false) ∧ (c'.loc w).onSide .write) ?_ ?_ halong hrun
    · rintro c₁ i a s l ⟨hinv, hsame, hawake, hside⟩ ⟨rfl, ha⟩ hstep
      have heffect := Effect.of_step (hinv.fits i) hstep
      have hstays := heffect.onSide hside fun _ => ha
      have hholders : holders .read (c₁.set i s l) = holders .read c := by
        have hout : ∀ p : Place, p.onSide .write → count (Place.holds .read) p = 0 := fun p hp =>
          if_neg (by rw [holds_of_onSide hp (by decide)]; decide)
        have hset := holders_set .read c₁ i s l
        rw [hout _ hside, hout _ hstays] at hset
        exact hset.trans hsame
      have hothers : ∀ j, j ≠ i → ((c₁.set i s l).loc j).waits = false := fun j hj => by
        rw [loc_set_of_ne hj]
        exact hawake j hj
      refine ⟨hinv.step heffect ?_ ?_, hholders, hothers, by rwa [loc_set_self]⟩
      · rw [tally_holds, hholders]
        exact h.word.lo_lt
      · rw [tally_eq_of_others (i := i) fun j hj => if_neg (by rw [hothers j hj]; decide)]
        exact (count_le_one _ _).trans_lt (by decide)
    · exact ⟨h.inv, rfl, fun j _ => h.quiet.awake j, by rw [hloc]; rfl⟩
  obtain ⟨hinv, hsame, -, -⟩ := hkept
  intro hwriting
  have hpresent := present hwriting
  have hexclusive := hinv.exclusive
  rw [tally_holds, tally_holds, hsame] at hexclusive
  rw [tally_holds] at hpresent
  omega

/-- **The readers unlock**, and the word is still right. -/
theorem freed (h : Counted c) {ys : List (ι × Choice)} {c' : XpConfig ι}
    (hys : Along RwlockXp.step (fun c y => (c.loc y.1).holds .read) c ys)
    (hrun : run RwlockXp.step c ys = some c') :
    Counted c' := by
  refine run_invariant_along ?_ h hys hrun
  intro c i a s l hc hheld hstep
  have hset := holders_set .read c i s l
  rw [show count (Place.holds .read) (c.loc i) = 1 from if_pos hheld] at hset
  have hle := count_le_one (Place.holds .read) l
  have hlt := hc.word.lo_lt
  refine (hc.step (fun hidle => ?_) hstep).1 (by omega)
  rw [hidle] at hheld
  cases hheld

theorem countsReaders (h : Counted c) : CountsReaders c := by
  refine ⟨h.word.readerCount, h.writer, h.waiters,
    fun hpos w zs c' hloc hzs hrun => h.refused hpos hloc hzs hrun, ?_⟩
  intro ys c' hys hrun hnone
  have hword := (h.freed hys hrun).word
  have hfree : Side.write.free c'.shared.lock := (free_write hword).2 ⟨hnone, rfl⟩
  refine ⟨hword.eq_zero_iff.2 ⟨hnone, rfl, rfl⟩, fun w hw => ?_⟩
  exact ⟨⟨_, acquires hfree hw, loc_set_self⟩, ⟨_, acquires_try hfree hw, loc_set_self⟩⟩

omit [DecidableEq ι] in
theorem exists_idle (hcalls : ∀ i, c.loc i = .idle ∨ c.loc i = .held .read)
    (hcard : holders .read c < Fintype.card ι) : ∃ i, c.loc i = .idle := by
  by_contra hnone
  have hall : ∀ i ∈ Finset.univ, (c.loc i).holds .read = true := fun i _ => by
    rw [(hcalls i).resolve_left fun hi => hnone ⟨i, hi⟩]
    rfl
  rw [holders, Finset.filter_true_of_mem hall, Finset.card_univ] at hcard
  exact Nat.lt_irrefl _ hcard

end Counted

omit [Fintype ι] in
/-- **It stays so**: the readers do not touch the field of the waiters. -/
theorem Spilled.step (h : Spilled c) (ha : a.onSide .read) (hstep : step i a c.shared (c.loc i) = some (s, l)) :
    Spilled (c.set i s l) := by
  obtain ⟨hquiet, hreads⟩ := h.quiet.step h.writer (fun _ => ha) hstep
  have hcount := toNat_readerCount_lt c.shared.lock
  obtain ⟨lock, event⟩ := s
  dsimp only at hreads
  cases hreads with
  | moves l hholds hsame => exact ⟨hquiet, h.writer, h.waiters⟩
  | begins hout =>
    refine ⟨hquiet, ?_, waitingCount_setReaders h.waiters _⟩
    have hwriter := isWriter_setReaders ((Packs.toNat_succ rfl hcount).trans_le hcount) c.shared.lock
    exact fun hflag => h.writer (hwriter.symm.trans hflag)
  | ends hnone hheld =>
    refine ⟨hquiet, ?_, waitingCount_setReaders h.waiters _⟩
    have hpos : 0 < (rwlockXpReaderCount c.shared.lock).toNat :=
      Nat.pos_of_ne_zero fun hzero => hnone (BitVec.eq_of_toNat_eq hzero)
    have hle : (rwlockXpReaderCount c.shared.lock - 1).toNat ≤ 2 ^ 15 :=
      (Packs.toNat_pred rfl hpos).trans_le ((Nat.sub_le _ 1).trans hcount.le)
    exact fun hflag => h.writer ((isWriter_setReaders hle _).symm.trans hflag)

variable (ι) in
omit [DecidableEq ι] in
theorem new_counted : Counted (new ι) := by
  refine ⟨⟨fun _ => rfl, fun _ => rfl, fun _ => trivial⟩, ?_⟩
  have hnone : holders .read (new ι) = 0 := by
    rw [← tally_holds]
    exact tally_eq_zero fun _ => rfl
  rw [hnone]
  exact Packs.zero

/-- **The word counts the readers as long as they are fewer than 2^15**, and never after that. -/
theorem counted_or_spilled {xs : List (ι × Choice)} (hreads : ∀ x ∈ xs, x.2.onSide .read)
    (hrun : run step (new ι) xs = some c) :
    (Throughout step (fun c => holders .read c < 32768) (new ι) xs → Counted c) ∧
      (¬ Throughout step (fun c => holders .read c < 32768) (new ι) xs → Spilled c) :=
  run_good_or_bad (fun _ _ _ _ _ h ha hstep => h.step (fun _ => ha) hstep) (fun _ _ _ _ _ h ha hstep =>
    h.step ha hstep)
    (new_counted ι) (new_counted ι).word.lo_lt hreads hrun

theorem countsReaders_iff {xs : List (ι × Choice)} (hreads : ∀ x ∈ xs, x.2.onSide .read)
    (hrun : run step (new ι) xs = some c) :
    CountsReaders c ↔ Throughout step (fun c => holders .read c < 32768) (new ι) xs := by
  obtain ⟨hcounted, hspilled⟩ := counted_or_spilled hreads hrun
  constructor
  · intro hcounts
    by_contra hnot
    exact (hspilled hnot).waiters hcounts.waiters
  · intro hfew
    exact (hcounted hfew).countsReaders

/-- As many readers as there are threads get the lock, up to the limit. -/
theorem exists_readers {n : ℕ} (hn : n ≤ 32768) (hcard : n ≤ Fintype.card ι) :
    ∃ xs c, (∀ x ∈ xs, x.2.onSide .read) ∧ run step (new ι) xs = some c ∧ holders .read c = n ∧
      (∀ i, c.loc i = .idle ∨ c.loc i = .held .read) ∧ (n < 32768 → Counted c) := by
  induction n with
  | zero =>
    refine ⟨[], new ι, fun x hx => absurd hx List.not_mem_nil, rfl, ?_, fun _ => .inl rfl, fun _ => new_counted ι⟩
    rw [← tally_holds]
    exact tally_eq_zero fun _ => rfl
  | succ n ih =>
    obtain ⟨xs, c, hreads, hrun, hnumber, hcalls, hcounted⟩ := ih (by omega) (by omega)
    have h := hcounted (by omega)
    obtain ⟨i, hloc⟩ := Counted.exists_idle hcalls (by omega)
    have hfree : Side.read.free c.shared.lock := (free_read h.word).2 rfl
    have hset := holders_set .read c i ⟨Side.read.counter c.shared.lock, c.shared.event⟩ (.held .read)
    rw [hloc, hnumber] at hset
    refine ⟨xs ++ [(i, .lock .read), (i, .go), (i, .go)], _, ?_, run_trans hrun (acquires hfree hloc), hset,
      forall_set (P := fun _ p => p = Place.idle ∨ p = Place.held .read) (.inr rfl) fun j _ => hcalls j,
        fun hlt => ?_⟩
    · intro x hx
      rcases List.mem_append.1 hx with hx | hx
      · exact hreads x hx
      · rcases List.mem_cons.1 hx with rfl | hx
        · rfl
        · rw [List.eq_of_mem_replicate (n := 2) hx]
          rfl
    · refine (h.begins ⟨?_, ?_, ?_⟩ (by rw [hloc]; rfl) rfl).1 (hset.trans_lt hlt)
      · exact forall_set (P := fun _ p => Place.onSide .read p) rfl fun j _ => h.quiet.readers j
      · exact forall_set (P := fun _ p => Place.waits p = false) rfl fun j _ => h.quiet.awake j
      · exact forall_set (P := fun _ => Place.Fits) trivial fun j _ => h.quiet.fits j

end Plibsys.RwlockXp

namespace Plibsys

open Interleaving

/-- **Both locks count the readers exactly as long as they are fewer than 2^15**, in every order of the
    readers' steps. -/
theorem arbitraryReaders_iff {ι : Type} [Fintype ι] [DecidableEq ι] :
    (∀ xs c, (∀ x ∈ xs, x.2.reads) → run Rwlock.step (Rwlock.new ι) xs = some c →
      (Rwlock.CountsReaders c ↔
        Throughout Rwlock.step (fun c => Rwlock.number .reading c < 32768) (Rwlock.new ι) xs)) ∧
    (∀ xs c, (∀ x ∈ xs, x.2.onSide .read) → run RwlockXp.step (RwlockXp.new ι) xs = some c →
      (RwlockXp.CountsReaders c ↔
        Throughout RwlockXp.step (fun c => RwlockXp.holders .read c < 32768) (RwlockXp.new ι) xs)) :=
  ⟨fun _ _ => Rwlock.countsReaders_iff, fun _ _ => RwlockXp.countsReaders_iff⟩

/-- Two readers. -/
theorem arbitraryReaders_two :
    (∃ c, run Rwlock.step (Rwlock.new (Fin 2)) [(0, .readerLock), (1, .readerTrylock)] = some c ∧
      Rwlock.CountsReaders c) ∧
    ∃ c, run RwlockXp.step (RwlockXp.new (Fin 2)) [(0, .lock .read), (0, .go), (0, .go)] = some c ∧
      RwlockXp.CountsReaders c := by
  refine ⟨⟨_, rfl, (arbitraryReaders_iff.1 [(0, .readerLock), (1, .readerTrylock)] _ ?_ rfl).2 ?_⟩,
    _, rfl, (arbitraryReaders_iff.2 [(0, .lock .read), (0, .go), (0, .go)] _ (by decide) rfl).2 ?_⟩
  · exact List.forall_mem_cons.2 ⟨trivial, List.forall_mem_singleton.2 trivial⟩
  · intro ys c' _ _
    exact (Finset.card_le_univ _).trans_lt (by decide)
  · intro ys c' _ _
    exact (Finset.card_le_univ _).trans_lt (by decide)

/-- The reader number 2^15 spoils the word of both locks. -/
theorem arbitraryReaders_overflow :
    (¬ ∀ xs c, (∀ x ∈ xs, x.2.reads) → run Rwlock.step (Rwlock.new (Fin 32768)) xs = some c →
    Rwlock.CountsReaders c) ∧
      ¬ ∀ xs c, (∀ x ∈ xs, x.2.onSide .read) → run RwlockXp.step (RwlockXp.new (Fin 32768)) xs = some c →
        RwlockXp.CountsReaders c := by
  have hcard : 32768 ≤ Fintype.card (Fin 32768) := Nat.le_of_eq (Fintype.card_fin _).symm
  constructor
  · intro h
    obtain ⟨xs, c, hreads, hrun, hnumber, -⟩ := Rwlock.exists_readers le_rfl hcard
    have hfew := (Rwlock.countsReaders_iff hreads hrun).1 (h xs c hreads hrun) xs c List.prefix_rfl hrun
    exact Nat.ne_of_lt hfew hnumber
  · intro h
    obtain ⟨xs, c, hreads, hrun, hnumber, -⟩ := RwlockXp.exists_readers le_rfl hcard
    have hfew := (RwlockXp.countsReaders_iff hreads hrun).1 (h xs c hreads hrun) xs c List.prefix_rfl hrun
    exact Nat.ne_of_lt hfew hnumber

end Plibsys
