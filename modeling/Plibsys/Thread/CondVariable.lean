/-
  Condition variables on Windows XP (`pcondvariable-win.c`).

  Any number of threads call `p_cond_variable_wait`, `p_cond_variable_signal` and
  `p_cond_variable_broadcast` with one mutex locked.  The counter of the waiters is touched only
  under the mutex; the calls of the mutex and of the semaphore are steps of their own.  Waits do
  not fail, and a step that would make `ReleaseSemaphore` fail is not made, so that every call
  returns `TRUE`.
-/
import Plibsys.Types
import Plibsys.Lib.Tally

namespace Plibsys

open Interleaving

/-- The limit of the semaphore. -/
def MAXLONG : ℕ := 2 ^ 31 - 1

/-- The mutex, and a `PCondVariableXP` with the count of its semaphore.  The last field records how many
    broadcasts have been issued. -/
structure PCondVariableXP (ι : Type) where
  mutex : Option ι
  waiters_count : pint
  waiters_sema : ℕ
  broadcasts : ℕ

/-- Where a thread is: in code of its own (`running`), or in front of a call in one of the functions.  A
    thread that waits remembers how many broadcasts had been issued before. -/
inductive CondPlace where
  | running
  | waitUnlock (since : ℕ)
  | waitSema (since : ℕ)
  | waitLock
  | signalRelease
  | broadcastRelease (waiters : pint)
  deriving DecidableEq, Repr

/-- What a thread does next in code of its own. -/
inductive CondChoice where
  | lock
  | unlock
  | wait
  | signal
  | broadcast
  | proceed
  deriving DecidableEq, Repr

variable {ι : Type}

namespace PCondVariableXP

/-- `ReleaseSemaphore`. -/
def release (s : PCondVariableXP ι) (n : ℕ) : Option (PCondVariableXP ι) :=
  if s.waiters_sema + n ≤ MAXLONG then some { s with waiters_sema := s.waiters_sema + n } else none

/-- A broadcast has been issued. -/
def issued (s : PCondVariableXP ι) : PCondVariableXP ι := { s with broadcasts := s.broadcasts + 1 }

end PCondVariableXP

/-- `pp_cond_variable_wait_xp`, up to its first call. -/
def ppCondVariableWaitXp (s : PCondVariableXP ι) : PCondVariableXP ι × CondPlace :=
  ({ s with waiters_count := s.waiters_count + 1 }, .waitUnlock s.broadcasts)

/-- `pp_cond_variable_signal_xp`, up to its call. -/
def ppCondVariableSignalXp (s : PCondVariableXP ι) : PCondVariableXP ι × CondPlace :=
  if s.waiters_count > 0 then ({ s with waiters_count := s.waiters_count - 1 }, .signalRelease)
  else (s, .running)

/-- `pp_cond_variable_broadcast_xp`, up to its call. -/
def ppCondVariableBroadcastXp (s : PCondVariableXP ι) : PCondVariableXP ι × CondPlace :=
  if s.waiters_count > 0 then ({ s with waiters_count := 0 }, .broadcastRelease s.waiters_count)
  else (s.issued, .running)

section
variable [DecidableEq ι]

/-- A thread in code of its own; it calls the functions with the mutex locked. -/
def condCall (i : ι) (s : PCondVariableXP ι) : CondChoice → Option (PCondVariableXP ι × CondPlace)
  | .lock => if s.mutex = none then some ({ s with mutex := some i }, .running) else none
  | .unlock => if s.mutex = some i then some ({ s with mutex := none }, .running) else none
  | .wait => if s.mutex = some i then some (ppCondVariableWaitXp s) else none
  | .signal => if s.mutex = some i then some (ppCondVariableSignalXp s) else none
  | .broadcast => if s.mutex = some i then some (ppCondVariableBroadcastXp s) else none
  | .proceed => none

/-- One step of a thread. -/
def condStep (i : ι) (a : CondChoice) (s : PCondVariableXP ι) : CondPlace → Option (PCondVariableXP ι × CondPlace)
  | .running => condCall i s a
  | .waitUnlock since => some ({ s with mutex := none }, .waitSema since)
  | .waitSema _ =>
    if 0 < s.waiters_sema then some ({ s with waiters_sema := s.waiters_sema - 1 }, .waitLock) else none
  | .waitLock => if s.mutex = none then some ({ s with mutex := some i }, .running) else none
  | .signalRelease => (s.release 1).map fun s => (s, .running)
  | .broadcastRelease waiters => (s.release waiters.toInt.toNat).map fun s => (s.issued, .running)

end

/-- A thread that was waiting when a broadcast was issued, and still is. -/
def CondPlace.Owed (broadcasts : ℕ) : CondPlace → Prop
  | .waitSema since => since < broadcasts
  | _ => False

instance (broadcasts : ℕ) : DecidablePred (CondPlace.Owed broadcasts)
  | .waitSema since => inferInstanceAs (Decidable (since < broadcasts))
  | .running | .waitUnlock _ | .waitLock | .signalRelease | .broadcastRelease _ => isFalse id

abbrev CondConfig (ι : Type) := Config ι (PCondVariableXP ι) CondPlace

/-- A new condition variable. -/
def condNew (ι : Type) : CondConfig ι := ⟨⟨none, 0, 0, 0⟩, fun _ => .running⟩

/-! ## The threads that wait -/

/-- A thread in `p_cond_variable_wait` without a unit of the semaphore. -/
def CondPlace.waits : CondPlace → ℕ
  | .waitUnlock _ | .waitSema _ => 1
  | _ => 0

/-- What a thread is about to release. -/
def CondPlace.releases : CondPlace → ℕ
  | .signalRelease => 1
  | .broadcastRelease waiters => waiters.toInt.toNat
  | _ => 0

def CondPlace.owed (broadcasts : ℕ) (l : CondPlace) : ℕ := if l.Owed broadcasts then 1 else 0

/-- What holds of the place of the thread `i`; in a function it has the mutex but for the wait itself. -/
def CondPlace.Ok (s : PCondVariableXP ι) (i : ι) : CondPlace → Prop
  | .waitUnlock since => s.mutex = some i ∧ since = s.broadcasts
  | .signalRelease => s.mutex = some i
  | .broadcastRelease _ => s.mutex = some i ∧ s.waiters_count = 0
  | .running | .waitSema _ | .waitLock => True

variable {s s' : PCondVariableXP ι} {i j : ι} {a : CondChoice} {l : CondPlace}

/-- Without the mutex a thread is in none of the places that depend on the state. -/
theorem CondPlace.Ok.of_other (h : l.Ok s j) (hj : s.mutex ≠ some j) : l.Ok s' j ∧ l.releases = 0 := by
  cases l with
  | waitUnlock since => exact absurd h.1 hj
  | signalRelease => exact absurd h hj
  | broadcastRelease waiters => exact absurd h.1 hj
  | _ => exact ⟨trivial, rfl⟩

theorem CondPlace.Ok.congr (h : l.Ok s j) (hmutex : s'.mutex = s.mutex)
    (hcount : s'.waiters_count = s.waiters_count)
    (hissued : s'.broadcasts = s.broadcasts) : l.Ok s' j := by
  cases l with
  | waitUnlock since => exact ⟨hmutex.trans h.1, h.2.trans hissued.symm⟩
  | signalRelease => exact hmutex.trans h
  | broadcastRelease waiters => exact ⟨hmutex.trans h.1, hcount.trans h.2⟩
  | _ => trivial

theorem owed_le_waits (broadcasts : ℕ) (l : CondPlace) : l.owed broadcasts ≤ l.waits := by
  unfold CondPlace.owed
  split
  next h =>
    cases l with
    | waitSema since => exact Nat.le_refl 1
    | _ => exact absurd h id
  next => exact Nat.zero_le _

theorem others_ne {c : CondConfig ι} (hmutex : c.shared.mutex = some i) : ∀ j, j ≠ i → c.shared.mutex ≠ some j :=
  fun _ hj hmutex' => hj (Option.some.inj (hmutex'.symm.trans hmutex))

variable [Fintype ι]

/-- A thread begins to wait only while the counter has room, and a thread that began after the last broadcast
    takes a unit of the semaphore only when there are more of them than threads that were waiting at a
    broadcast and still are. -/
def CondPlace.Allows (c : CondConfig ι) (a : CondChoice) : CondPlace → Prop
  | .running => a = .wait → c.shared.waiters_count ≠ Int32.maxValue
  | .waitSema since => c.shared.broadcasts ≤ since →
      c.tally (CondPlace.owed c.shared.broadcasts) < c.shared.waiters_sema
  | _ => True

instance (c : CondConfig ι) (a : CondChoice) : DecidablePred (CondPlace.Allows c a)
  | .running => inferInstanceAs (Decidable (_ → _))
  | .waitSema _ => inferInstanceAs (Decidable (_ → _))
  | .waitUnlock _ | .waitLock | .signalRelease | .broadcastRelease _ => isTrue trivial

def CondAllowed (c : CondConfig ι) (x : ι × CondChoice) : Prop := (c.loc x.1).Allows c x.2

instance (c : CondConfig ι) (x : ι × CondChoice) : Decidable (CondAllowed c x) :=
  inferInstanceAs (Decidable ((c.loc x.1).Allows c x.2))

/-- The threads that wait are those that are counted and those for which there is a unit, or will be. -/
structure CondInv (c : CondConfig ι) : Prop where
  places : ∀ i, (c.loc i).Ok c.shared i
  nonneg : 0 ≤ c.shared.waiters_count.toInt
  count : c.tally CondPlace.waits =
    c.shared.waiters_count.toInt.toNat + c.shared.waiters_sema + c.tally CondPlace.releases
  owed_le : c.tally (CondPlace.owed c.shared.broadcasts) ≤ c.shared.waiters_sema

variable {c : CondConfig ι} [DecidableEq ι]

namespace CondInv

/-- A step of a thread without which nobody has the mutex. -/
theorem places_set (h : CondInv c) (hmutex : ∀ j, j ≠ i → c.shared.mutex ≠ some j) (hl : l.Ok s i) (j : ι) :
    ((c.set i s l).loc j).Ok s j :=
  forall_set hl (fun j hj => ((h.places j).of_other (hmutex j hj)).1) j

omit [DecidableEq ι] in
/-- Only the thread with the mutex is about to release units. -/
theorem tally_releases (h : CondInv c) (hmutex : ∀ j, j ≠ i → c.shared.mutex ≠ some j) :
    c.tally CondPlace.releases = (c.loc i).releases := by
  refine tally_eq_of_others fun j hj => ?_
  have hother : (c.loc j).Ok c.shared j ∧ (c.loc j).releases = 0 := (h.places j).of_other (hmutex j hj)
  exact hother.2

/-- The accounts are right again after a step of the thread `i`. -/
theorem set (h : CondInv c) (hplaces : ∀ j, ((c.set i s l).loc j).Ok s j) (hnonneg : 0 ≤ s.waiters_count.toInt)
    (hissued : s.broadcasts = c.shared.broadcasts)
    (hcount : s.waiters_count.toInt.toNat + s.waiters_sema + l.releases + (c.loc i).waits =
      c.shared.waiters_count.toInt.toNat + c.shared.waiters_sema + (c.loc i).releases + l.waits)
    (howed : c.tally (CondPlace.owed c.shared.broadcasts) + l.owed c.shared.broadcasts ≤
      s.waiters_sema + (c.loc i).owed c.shared.broadcasts) : CondInv (c.set i s l) := by
  have hwaits := tally_set CondPlace.waits c i s l
  have hreleases := tally_set CondPlace.releases c i s l
  have howed' := tally_set (CondPlace.owed c.shared.broadcasts) c i s l
  have hall := h.count
  refine ⟨hplaces, hnonneg, ?_, ?_⟩
  · rw [shared_set]
    omega
  · rw [shared_set, hissued]
    omega

/-- A broadcast has been issued: everyone who waits is owed a unit. -/
theorem set_issued (h : CondInv c) (hmutex : ∀ j, j ≠ i → c.shared.mutex ≠ some j)
    (hcount : c.shared.waiters_count.toInt.toNat = 0) (hwaits : (c.loc i).waits = 0)
    (hs : s.waiters_sema = c.shared.waiters_sema + (c.loc i).releases)
    (hs' : s.waiters_count = c.shared.waiters_count) :
    CondInv (c.set i s .running) := by
  have hreleases := h.tally_releases hmutex
  have hset := tally_set CondPlace.releases c i s .running
  have hset' := tally_set CondPlace.waits c i s .running
  have hle : (c.set i s .running).tally (CondPlace.owed s.broadcasts) ≤
    (c.set i s .running).tally CondPlace.waits :=
    tally_le_tally (owed_le_waits _)
  have hall := h.count
  have hrunning : CondPlace.running.waits = 0 := rfl
  have hrunning' : CondPlace.running.releases = 0 := rfl
  refine ⟨h.places_set hmutex trivial, ?_, ?_, ?_⟩
  · rw [shared_set, hs']
    exact h.nonneg
  · rw [shared_set, hs', hs]
    omega
  · rw [shared_set, hs]
    omega

end CondInv

/-! ## The steps -/

theorem toInt_succ {n : pint} (h : n ≠ Int32.maxValue) : (n + 1).toInt = n.toInt + 1 := by
  have hlt := n.toInt_lt
  have hge := n.le_toInt
  have hne : n.toInt ≠ 2 ^ 31 - 1 := fun h' => h (Int32.toInt_inj.1 h')
  have hone : (1 : pint).toInt = 1 := rfl
  rw [Int32.toInt_add, hone]
  exact Int.bmod_eq_of_le (by omega) (by omega)

theorem toInt_pred {n : pint} (h : 0 < n.toInt) : (n - 1).toInt = n.toInt - 1 := by
  have hlt := n.toInt_lt
  have hone : (1 : pint).toInt = 1 := rfl
  rw [Int32.toInt_sub, hone]
  exact Int.bmod_eq_of_le (by omega) (by omega)

theorem count_pos {n : pint} : n > 0 ↔ 0 < n.toInt := Int32.lt_iff_toInt_lt

namespace CondInv

/-- The mutex is locked or unlocked between the calls. -/
theorem lock (h : CondInv c) (hloc : c.loc i = .running ∨ c.loc i = .waitLock)
    (hmutex : ∀ j, j ≠ i → c.shared.mutex ≠ some j) (mutex : Option ι) :
    CondInv (c.set i { c.shared with mutex := mutex } .running) := by
  have hbefore : (c.loc i).waits = 0 ∧ (c.loc i).releases = 0 := by
    rcases hloc with hloc | hloc
    · rw [hloc]
      exact ⟨rfl, rfl⟩
    · rw [hloc]
      exact ⟨rfl, rfl⟩
  refine h.set (h.places_set hmutex trivial) h.nonneg rfl ?_ ?_
  · rw [hbefore.1, hbefore.2]
    rfl
  · exact Nat.le_add_right_of_le h.owed_le

theorem wait (h : CondInv c) (hloc : c.loc i = .running) (hmutex : c.shared.mutex = some i)
    (hroom : c.shared.waiters_count ≠ Int32.maxValue) :
    CondInv (c.set i (ppCondVariableWaitXp c.shared).1 (ppCondVariableWaitXp c.shared).2) := by
  have hnext := toInt_succ hroom
  have hnonneg := h.nonneg
  have hsucc : 0 ≤ (c.shared.waiters_count + 1).toInt := by omega
  refine h.set (h.places_set (others_ne hmutex) ⟨hmutex, rfl⟩) hsucc rfl ?_ ?_
  · rw [hloc]
    simp only [ppCondVariableWaitXp, CondPlace.waits, CondPlace.releases]
    omega
  · exact Nat.le_add_right_of_le h.owed_le

/-- The mutex is unlocked in front of the semaphore. -/
theorem unlock (h : CondInv c) {since : ℕ} (hloc : c.loc i = .waitUnlock since) :
    CondInv (c.set i { c.shared with mutex := none } (.waitSema since)) := by
  have hplace := h.places i
  rw [hloc] at hplace
  obtain ⟨hmutex, hsince⟩ := hplace
  refine h.set (h.places_set (others_ne hmutex) trivial) h.nonneg rfl ?_ ?_
  · rw [hloc]
    rfl
  · have hnot : (CondPlace.waitSema since).owed c.shared.broadcasts = 0 := by
      rw [hsince]
      exact if_neg (Nat.lt_irrefl _)
    rw [hnot]
    exact Nat.le_add_right_of_le h.owed_le

theorem signal (h : CondInv c) (hloc : c.loc i = .running) (hmutex : c.shared.mutex = some i) :
    CondInv (c.set i (ppCondVariableSignalXp c.shared).1 (ppCondVariableSignalXp c.shared).2) := by
  rw [ppCondVariableSignalXp]
  split
  next hpos =>
    have hpos' := count_pos.1 hpos
    have hnext := toInt_pred hpos'
    have hpred : 0 ≤ (c.shared.waiters_count - 1).toInt := by omega
    refine h.set (h.places_set (others_ne hmutex) hmutex) hpred rfl ?_ (Nat.le_add_right_of_le h.owed_le)
    rw [hloc]
    simp only [CondPlace.waits, CondPlace.releases]
    omega
  next => exact h.lock (.inl hloc) (others_ne hmutex) c.shared.mutex

theorem broadcast (h : CondInv c) (hloc : c.loc i = .running) (hmutex : c.shared.mutex = some i) :
    CondInv (c.set i (ppCondVariableBroadcastXp c.shared).1 (ppCondVariableBroadcastXp c.shared).2) := by
  rw [ppCondVariableBroadcastXp]
  split
  next hpos =>
    refine h.set (h.places_set (others_ne hmutex) ⟨hmutex, rfl⟩) (Int.le_refl 0) rfl ?_
      (Nat.le_add_right_of_le h.owed_le)
    rw [hloc]
    show 0 + c.shared.waiters_sema + c.shared.waiters_count.toInt.toNat + 0 = _
    simp only [CondPlace.waits, CondPlace.releases]
    omega
  next hzero =>
    have hle : ¬ 0 < c.shared.waiters_count.toInt := fun hpos => hzero (count_pos.2 hpos)
    refine h.set_issued (others_ne hmutex) (by omega) (by rw [hloc]; rfl) ?_ rfl
    rw [hloc]
    rfl

/-- A unit of the semaphore is taken. -/
theorem take (h : CondInv c) {since : ℕ} (hloc : c.loc i = .waitSema since) (hpos : 0 < c.shared.waiters_sema)
    (hallowed : c.shared.broadcasts ≤ since →
    c.tally (CondPlace.owed c.shared.broadcasts) < c.shared.waiters_sema) :
    CondInv (c.set i { c.shared with waiters_sema := c.shared.waiters_sema - 1 } .waitLock) := by
  refine h.set (forall_set trivial fun j _ => (h.places j).congr rfl rfl rfl) h.nonneg rfl ?_ ?_
  · rw [hloc]
    simp only [CondPlace.waits, CondPlace.releases]
    omega
  · have howed := h.owed_le
    have hlast : CondPlace.waitLock.owed c.shared.broadcasts = 0 := if_neg id
    rw [hloc, hlast]
    rcases Nat.lt_or_ge since c.shared.broadcasts with hlt | hge
    · have hone : (CondPlace.waitSema since).owed c.shared.broadcasts = 1 := if_pos hlt
      rw [hone]
      dsimp only
      omega
    · have hlater := hallowed hge
      dsimp only
      omega

/-- The unit of a signal is released. -/
theorem release (h : CondInv c) (hloc : c.loc i = .signalRelease) :
    CondInv (c.set i { c.shared with waiters_sema := c.shared.waiters_sema + 1 } .running) := by
  refine h.set (forall_set trivial fun j _ => (h.places j).congr rfl rfl rfl) h.nonneg rfl ?_
    (Nat.le_add_right_of_le (Nat.le_succ_of_le h.owed_le))
  rw [hloc]
  simp only [CondPlace.waits, CondPlace.releases]
  omega

/-- The units of a broadcast are released. -/
theorem releaseAll (h : CondInv c) {waiters : pint} (hloc : c.loc i = .broadcastRelease waiters) :
    CondInv (c.set i (PCondVariableXP.issued
      { c.shared with waiters_sema := c.shared.waiters_sema + waiters.toInt.toNat }) .running) := by
  have hplace := h.places i
  rw [hloc] at hplace
  obtain ⟨hmutex, hcount⟩ := hplace
  refine h.set_issued (others_ne hmutex) (by rw [hcount]; rfl) (by rw [hloc]; rfl) ?_ rfl
  rw [hloc]
  rfl

/-- **Every allowed step keeps the accounts.** -/
theorem step (h : CondInv c) (hok : CondAllowed c (i, a)) (hstep : condStep i a c.shared (c.loc i) = some (s, l)) :
    CondInv (c.set i s l) := by
  rw [CondAllowed] at hok
  cases hloc : c.loc i with
  | running =>
    rw [hloc] at hstep hok
    cases a with
    | lock =>
      obtain ⟨hfree, hstep⟩ := Option.ite_none_right_eq_some.1 hstep
      cases hstep
      exact h.lock (.inl hloc) (fun j _ hj => nomatch hfree.symm.trans hj) _
    | unlock =>
      obtain ⟨hmutex, hstep⟩ := Option.ite_none_right_eq_some.1 hstep
      cases hstep
      exact h.lock (.inl hloc) (others_ne hmutex) _
    | wait =>
      obtain ⟨hmutex, hstep⟩ := Option.ite_none_right_eq_some.1 hstep
      cases hstep
      exact h.wait hloc hmutex (hok rfl)
    | signal =>
      obtain ⟨hmutex, hstep⟩ := Option.ite_none_right_eq_some.1 hstep
      have hset := h.signal hloc hmutex
      rw [Option.some.inj hstep] at hset
      exact hset
    | broadcast =>
      obtain ⟨hmutex, hstep⟩ := Option.ite_none_right_eq_some.1 hstep
      have hset := h.broadcast hloc hmutex
      rw [Option.some.inj hstep] at hset
      exact hset
    | proceed => cases hstep
  | waitUnlock since =>
    rw [hloc] at hstep
    cases hstep
    exact h.unlock hloc
  | waitSema since =>
    rw [hloc] at hstep hok
    obtain ⟨hpos, hstep⟩ := Option.ite_none_right_eq_some.1 hstep
    cases hstep
    exact h.take hloc hpos hok
  | waitLock =>
    rw [hloc] at hstep
    obtain ⟨hfree, hstep⟩ := Option.ite_none_right_eq_some.1 hstep
    cases hstep
    exact h.lock (.inr hloc) (fun j _ hj => nomatch hfree.symm.trans hj) _
  | signalRelease =>
    rw [hloc] at hstep
    obtain ⟨s', hrelease, hstep⟩ := Option.map_eq_some_iff.1 hstep
    obtain ⟨-, hs'⟩ := Option.ite_none_right_eq_some.1 hrelease
    cases hs'
    cases hstep
    exact h.release hloc
  | broadcastRelease waiters =>
    rw [hloc] at hstep
    obtain ⟨s', hrelease, hstep⟩ := Option.map_eq_some_iff.1 hstep
    obtain ⟨-, hs'⟩ := Option.ite_none_right_eq_some.1 hrelease
    cases hs'
    cases hstep
    exact h.releaseAll hloc

variable (ι) in
omit [DecidableEq ι] in
theorem new : CondInv (condNew ι) := by
  refine ⟨fun _ => trivial, Int.le_refl 0, ?_, ?_⟩
  · rw [tally_eq_zero fun _ => rfl, tally_eq_zero fun _ => rfl]
    rfl
  · rw [tally_eq_zero fun _ => if_neg id]
    exact Nat.zero_le _

end CondInv

/-- **A broadcast wakes all who wait**: in every state that a run of allowed steps reaches, for a thread that was
    waiting when a broadcast was issued and still is, there is a unit of the semaphore. -/
theorem condVariableXp_broadcast {ι : Type} [Fintype ι] [DecidableEq ι] {xs : List (ι × CondChoice)}
    {c : CondConfig ι}
    (hok : Along condStep CondAllowed (condNew ι) xs) (hrun : run condStep (condNew ι) xs = some c) {i : ι}
    (hi : (c.loc i).Owed c.shared.broadcasts) : 0 < c.shared.waiters_sema := by
  have hinv : CondInv c :=
    run_invariant_along (fun _ _ _ _ _ h hok hstep => h.step hok hstep) (CondInv.new ι) hok hrun
  have hone : (c.loc i).owed c.shared.broadcasts = 1 := if_pos hi
  have hle := le_tally (CondPlace.owed c.shared.broadcasts) c i
  have howed := hinv.owed_le
  omega

theorem condVariableXp_broadcast_two :
    ∃ c, run condStep (condNew (Fin 2)) [(0, .lock), (0, .wait), (0, .proceed), (1, .lock), (1, .broadcast),
      (1, .proceed)] =
      some c ∧ (c.loc 0).Owed c.shared.broadcasts ∧ 0 < c.shared.waiters_sema := by
  have hok : Along condStep CondAllowed (condNew (Fin 2))
      [(0, .lock), (0, .wait), (0, .proceed), (1, .lock), (1, .broadcast), (1, .proceed)] := by decide
  exact ⟨_, rfl, by decide, condVariableXp_broadcast (i := 0) hok rfl (by decide)⟩

/-- The thread that has issued the broadcast then waits, and takes the unit of the thread that was waiting. -/
theorem condVariableXp_stolen :
    ∃ c, run condStep (condNew (Fin 2)) [(0, .lock), (0, .wait), (0, .proceed), (1, .lock), (1, .broadcast),
      (1, .proceed),
        (1, .wait), (1, .proceed), (1, .proceed)] = some c ∧
      (c.loc 0).Owed c.shared.broadcasts ∧ c.shared.waiters_sema = 0 :=
  ⟨_, rfl, by decide, rfl⟩

/-! ## The condition on the steps -/

omit [DecidableEq ι] in
theorem exists_owed {n : ℕ} (h : 0 < c.tally (CondPlace.owed n)) : ∃ i since, c.loc i = .waitSema since ∧
    since < n := by
  by_contra hnone
  have hzero : ∀ i, (c.loc i).owed n = 0 := by
    intro i
    refine if_neg fun hi => ?_
    cases hloc : c.loc i with
    | waitSema since =>
      rw [hloc] at hi
      exact hnone ⟨i, since, hloc, hi⟩
    | _ =>
      rw [hloc] at hi
      exact hi
  exact h.ne' (tally_eq_zero hzero)

/-- The step of a thread that takes a unit. -/
theorem next_take {since : ℕ} (hloc : c.loc i = .waitSema since) (hpos : 0 < c.shared.waiters_sema) :
    ∃ c', next condStep c (i, .proceed) = some c' ∧ c'.shared.waiters_sema + 1 = c.shared.waiters_sema ∧
      c'.shared.broadcasts = c.shared.broadcasts ∧
      c'.tally (CondPlace.owed c.shared.broadcasts) + (CondPlace.waitSema since).owed c.shared.broadcasts =
        c.tally (CondPlace.owed c.shared.broadcasts) := by
  refine ⟨c.set i { c.shared with waiters_sema := c.shared.waiters_sema - 1 } .waitLock, ?_, ?_, rfl, ?_⟩
  · rw [next, hloc, condStep, if_pos hpos]
    rfl
  · exact Nat.sub_add_cancel hpos
  · have hlast : CondPlace.waitLock.owed c.shared.broadcasts = 0 := if_neg id
    rw [← hloc, tally_set, hlast]
    rfl

/-- With fewer units than threads that are owed one, those that take the units leave another one waiting. -/
theorem exists_blocked (hfew : c.shared.waiters_sema < c.tally (CondPlace.owed c.shared.broadcasts)) :
    ∃ xs c', run condStep c xs = some c' ∧ c'.shared.waiters_sema = 0 ∧
      ∃ i, (c'.loc i).Owed c'.shared.broadcasts := by
  induction hn : c.shared.waiters_sema generalizing c with
  | zero =>
    obtain ⟨i, since, hloc, hlt⟩ := exists_owed (Nat.zero_lt_of_lt hfew)
    exact ⟨[], c, rfl, hn, i, hloc ▸ hlt⟩
  | succ n ih =>
    obtain ⟨i, since, hloc, hlt⟩ := exists_owed (Nat.zero_lt_of_lt hfew)
    obtain ⟨c₁, hnext, hsema, hissued, htally⟩ := next_take hloc (by omega)
    have hone : (CondPlace.waitSema since).owed c.shared.broadcasts = 1 := if_pos hlt
    obtain ⟨xs, c', hrun, hend⟩ := ih (c := c₁) (by rw [hissued]; omega) (by omega)
    exact ⟨(i, .proceed) :: xs, c', by rw [run_cons, hnext]; exact hrun, hend⟩

/-- **The condition is needed**: after a later waiter has taken a unit that is owed to another thread, a run leads
    to a state in which such a thread waits and there is no unit. -/
theorem condVariableXp_taken {since : ℕ} (hloc : c.loc i = .waitSema since) (hlater : c.shared.broadcasts ≤ since)
    (hpos : 0 < c.shared.waiters_sema)
    (hfew : c.shared.waiters_sema ≤ c.tally (CondPlace.owed c.shared.broadcasts)) :
    ∃ xs c', run condStep c ((i, .proceed) :: xs) = some c' ∧ c'.shared.waiters_sema = 0 ∧
      ∃ j, (c'.loc j).Owed c'.shared.broadcasts := by
  obtain ⟨c₁, hnext, hsema, hissued, htally⟩ := next_take hloc hpos
  have hzero : (CondPlace.waitSema since).owed c.shared.broadcasts = 0 := if_neg (Nat.not_lt.2 hlater)
  obtain ⟨xs, c', hrun, hend⟩ := exists_blocked (c := c₁) (by rw [hissued]; omega)
  exact ⟨xs, c', by rw [run_cons, hnext]; exact hrun, hend⟩

end Plibsys
