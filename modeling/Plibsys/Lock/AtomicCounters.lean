/-
  Counters that many threads change with the atomic operations on an `int`.

  No update of a counter is lost, and of those who give back the last references exactly one is told so.
-/
import Plibsys.Lib.Tally
import Plibsys.Lock.Atomic

namespace Plibsys.Atomic

open Critical Interleaving

variable {ι : Type} {a : ppointer} {op : Op} {m : Memory} {n : ℕ}

/-! ## One operation -/

/-- What an operation adds to the number at `a`. -/
def adds (a : ppointer) : Op → BitVec 32
  | .intInc atomic => if atomic = a then 1 else 0
  | .intDecAndTest atomic => if atomic = a then -1 else 0
  | .intAdd atomic val => if atomic = a then val else 0
  | _ => 0

/-- The operation may put something else in the place of the number at `a`. -/
def Overwrites (a : ppointer) : Op → Prop
  | .intSet atomic _ | .intCompareAndExchange atomic _ _ | .intAnd atomic _ | .intOr atomic _ | .intXor atomic _ =>
    atomic = a
  | _ => False

/-- The operation gives back a reference that is counted at `a`, or it leaves the number alone and tells
    nobody so. -/
def Releases (a : ppointer) : Op → Prop
  | .intDecAndTest atomic => atomic = a
  | .intSet atomic _ | .intInc atomic | .intAdd atomic _ | .intAnd atomic _ | .intOr atomic _ | .intXor atomic _ =>
    atomic ≠ a
  | .intCompareAndExchange _ _ _ | .pointerCompareAndExchange _ _ _ => False
  | _ => True

instance (a : ppointer) : DecidablePred (Overwrites a) := fun op => by
  cases op <;> unfold Overwrites <;> infer_instance

instance (a : ppointer) : DecidablePred (Releases a) := fun op => by
  cases op <;> unfold Releases <;> infer_instance

theorem store_int (atomic : ppointer) (val : BitVec 32) :
    m.store .int atomic val .int a = if atomic = a then val else m .int a := by
  rw [Memory.store, Function.update_self, Function.update_apply]
  exact if_congr eq_comm rfl rfl

theorem store_int_of_ne {atomic : ppointer} (h : atomic ≠ a) (val : BitVec 32) :
    m.store .int atomic val .int a = m .int a := by
  rw [store_int, if_neg h]

theorem store_pointer (atomic : ppointer) (val : BitVec 64) : m.store .pointer atomic val .int a = m .int a := by
  rw [Memory.store, Function.update_of_ne]
  exact fun h => by cases h

/-- A number that is changed by what is added to it. -/
theorem store_add (atomic : ppointer) (val : BitVec 32) :
    m.store .int atomic (m .int atomic + val) .int a = m .int a + if atomic = a then val else 0 := by
  rw [store_int]
  by_cases h : atomic = a
  · subst h
    rw [if_pos rfl, if_pos rfl]
  · rw [if_neg h, if_neg h, add_zero]

theorem compareAndExchange_snd (w : Width) (atomic : ppointer) (oldval newval : BitVec w.bits) :
    (C11.compareAndExchange w atomic oldval newval m).2 =
      if m w atomic = oldval then m.store w atomic newval else m := by
  unfold C11.compareAndExchange C11.atomicCompareExchange
  split_ifs <;> rfl

/-- What an operation does to the number at `a`, unless it overwrites it. -/
theorem call_int (h : ¬ Overwrites a op) : (C11.call op m).2 .int a = m .int a + adds a op := by
  cases op with
  | intInc atomic => exact store_add atomic 1
  | intDecAndTest atomic =>
    have hsub : (C11.call (.intDecAndTest atomic) m).2 = m.store .int atomic (m .int atomic + -1) := by
      rw [← sub_eq_add_neg]
      rfl
    rw [hsub]
    exact store_add atomic (-1)
  | intAdd atomic val => exact store_add atomic val
  | intGet atomic | pointerGet atomic =>
    exact (add_zero _).symm
  | intSet atomic val =>
    refine Eq.trans ?_ (add_zero _).symm
    exact store_int_of_ne h val
  | intAnd atomic val =>
    refine Eq.trans ?_ (add_zero _).symm
    exact store_int_of_ne h (m .int atomic &&& val)
  | intOr atomic val =>
    refine Eq.trans ?_ (add_zero _).symm
    exact store_int_of_ne h (m .int atomic ||| val)
  | intXor atomic val =>
    refine Eq.trans ?_ (add_zero _).symm
    exact store_int_of_ne h (m .int atomic ^^^ val)
  | intCompareAndExchange atomic oldval newval =>
    have hsnd : (C11.call (.intCompareAndExchange atomic oldval newval) m).2 = _ :=
      compareAndExchange_snd .int atomic oldval newval
    rw [hsnd]
    refine Eq.trans ?_ (add_zero _).symm
    split_ifs
    · exact store_int_of_ne h newval
    · rfl
  | pointerCompareAndExchange atomic oldval newval =>
    have hsnd : (C11.call (.pointerCompareAndExchange atomic oldval newval) m).2 = _ :=
      compareAndExchange_snd .pointer atomic oldval newval
    rw [hsnd]
    refine Eq.trans ?_ (add_zero _).symm
    split_ifs
    · exact store_pointer atomic newval
    · rfl
  | pointerSet atomic val =>
    refine Eq.trans ?_ (add_zero _).symm
    exact store_pointer atomic val
  | pointerAdd atomic val =>
    refine Eq.trans ?_ (add_zero _).symm
    exact store_pointer atomic (m .pointer atomic + val)
  | pointerAnd atomic val =>
    refine Eq.trans ?_ (add_zero _).symm
    exact store_pointer atomic (m .pointer atomic &&& val)
  | pointerOr atomic val =>
    refine Eq.trans ?_ (add_zero _).symm
    exact store_pointer atomic (m .pointer atomic ||| val)
  | pointerXor atomic val =>
    refine Eq.trans ?_ (add_zero _).symm
    exact store_pointer atomic (m .pointer atomic ^^^ val)

/-! ## No update is lost -/

/-- What an operation that has been called but has not happened is going to add. -/
def pending (a : ppointer) : Outline Op Result → BitVec 32
  | .called op => adds a op
  | .idle | .done _ => 0

/-- An operation that has been called but has not happened does not overwrite the number. -/
def Keeps (a : ppointer) : Outline Op Result → Prop
  | .called op => ¬ Overwrites a op
  | .idle | .done _ => True

section
variable [Fintype ι] [DecidableEq ι]

/-- The number has grown by what the operations that have happened add. -/
structure Counted (a : ppointer) (m : Memory) (h : List (ι × Event Op Result))
    (d : Config ι Memory (Outline Op Result)) :
    Prop where
  value : d.shared .int a + ∑ i, pending a (d.loc i) = m .int a + ((calls h).map (adds a)).sum
  keeps : ∀ i, Keeps a (d.loc i)

theorem Counted.step {h : List (ι × Event Op Result)} {d : Config ι Memory (Outline Op Result)} {i : ι}
    {x : Move Op Result} {s : Memory} {l : Outline Op Result} (hI : Counted a m h d)
    (hok : ∀ op ∈ calls (h ++ history Move.event [(i, x)]), ¬ Overwrites a op)
    (hstep : c11Step i x d.shared (d.loc i) = some (s, l)) :
    Counted a m (h ++ history Move.event [(i, x)]) (d.set i s l) := by
  have hsum := sum_set (pending a) d i s l
  have hvalue := hI.value
  obtain ⟨op, rfl, hplace, rfl, rfl⟩ | ⟨op, rfl, hplace, rfl, rfl⟩ | ⟨r, rfl, hplace, rfl, rfl⟩ :=
    c11Step_cases hstep <;> rw [hplace] at hsum
  · have hcalls : calls (h ++ history Move.event [(i, .call op)]) = calls h ++ [op] := calls_append ..
    rw [hcalls] at hok
    have hop : ¬ Overwrites a op := hok op (List.mem_append_right _ (List.mem_singleton_self op))
    constructor
    · rw [hcalls, List.map_append, List.sum_append, List.map_singleton, List.sum_singleton, ← add_assoc, ← hvalue]
      rw [pending, pending, add_zero] at hsum
      rw [hsum, shared_set, add_assoc]
    · exact forall_set (P := fun _ => Keeps a) hop fun j _ => hI.keeps j
  · have hcalls : calls (h ++ history Move.event [(i, .work)]) = calls h := by
      rw [calls_append]
      exact List.append_nil _
    have hop : ¬ Overwrites a op := by
      have hkeeps := hI.keeps i
      rwa [hplace] at hkeeps
    constructor
    · rw [hcalls, ← hvalue, shared_set, call_int hop]
      rw [pending, pending, add_zero] at hsum
      rw [← hsum, add_assoc, add_comm (adds a op)]
    · exact forall_set (P := fun _ => Keeps a) trivial fun j _ => hI.keeps j
  · have hcalls : calls (h ++ history Move.event [(i, .ret r)]) = calls h := by
      rw [calls_append]
      exact List.append_nil _
    constructor
    · rw [hcalls, ← hvalue, shared_set]
      rw [pending, pending, add_zero, add_zero] at hsum
      rw [hsum]
    · exact forall_set (P := fun _ => Keeps a) trivial fun j _ => hI.keeps j

variable {xs : List (ι × Move Op Result)} {c : Config ι (Guarded Bool Memory) (Place Op Result Access Access.Reply)}

omit [DecidableEq ι] in
theorem Counted.start : Counted a m [] (atomicStart (ι := ι) m) := by
  constructor
  · have hsum : ∑ i : ι, pending a ((atomicStart m).loc i) = 0 := Finset.sum_eq_zero fun _ _ => rfl
    rw [hsum]
    rfl
  · exact fun _ => trivial

theorem counted_of_run {ys : List (ι × Move Op Result)} {d : Config ι Memory (Outline Op Result)}
    (hrun : run c11Step (atomicStart m) ys = some d)
    (hkeeps : ∀ op ∈ calls (history Move.event ys), ¬ Overwrites a op) :
    Counted a m (history Move.event ys) d := by
  refine run_history_invariant (I := fun h d => (∀ op ∈ calls h, ¬ Overwrites a op) → Counted a m h d) (h := [])
    ?_ (fun _ => .start) hrun hkeeps
  intro h d i x s l hI hstep hok
  refine (hI fun op hop => hok op ?_).step hok hstep
  rw [calls_append]
  exact List.mem_append_left _ hop

variable {xs : List (ι × Move Op Result)} {c : Config ι (Guarded Bool Memory) (Place Op Result Access Access.Reply)}

/-- **No update is lost.**  However the accesses of the operations under the mutex interleave, when all calls have
    returned a number that none of them overwrites has grown by what they add. -/
theorem patomicSim_noLostUpdate (hrun : run simStep (start mutex m) xs = some c)
    (hidle : ∀ i, c.loc i = .idle) (hkeeps : ∀ op ∈ calls (history Move.event xs), ¬ Overwrites a op) :
    c.shared.value .int a = m .int a + ((calls (history Move.event xs)).map (adds a)).sum := by
  obtain ⟨ys, d, hys, hhistory, hfollows⟩ := exists_c11Run hrun
  rw [← hhistory] at hkeeps ⊢
  have hvalue := (counted_of_run hys hkeeps).value
  have hsum : ∑ i, pending a (d.loc i) = 0 := by
    refine Finset.sum_eq_zero fun i _ => ?_
    rw [hfollows.outline i, hidle i]
    rfl
  rw [hsum, add_zero] at hvalue
  rw [hfollows.guards.quiet, hvalue]
  intro i
  rw [hidle i]
  exact id

/-- One thread adds 5 while another one counts down. -/
theorem patomicSim_noLostUpdate_two :
    let xs : List (Fin 2 × Move Op Result) :=
      [(0, .call (.intAdd 8 5)), (1, .call (.intDecAndTest 8)), (0, .work), (0, .work), (1, .work), (0, .work),
        (0, .work), (1, .work), (1, .work), (0, .ret (.int 1)), (1, .work), (1, .work), (1, .ret (.bool false))]
    ∃ c, run simStep (start mutex fun _ _ => 1) xs = some c ∧ c.shared.value .int 8 = 5 := by
  intro xs
  obtain ⟨c, hrun, hidle⟩ : ∃ c, run simStep (start mutex fun _ _ => 1) xs = some c ∧ c.loc 0 = .idle ∧
    c.loc 1 = .idle :=
    ⟨_, rfl, rfl, rfl⟩
  refine ⟨c, hrun, ?_⟩
  rw [patomicSim_noLostUpdate (a := 8) hrun (Fin.forall_fin_two.2 hidle) (by decide)]
  rfl

/-! ## The last reference -/

/-- What an operation that gives back no reference does. -/
theorem call_of_releases (h : Releases a op) (hne : op ≠ .intDecAndTest a) :
    (C11.call op m).2 .int a = m .int a ∧ (C11.call op m).1 ≠ .bool true := by
  have hover : ¬ Overwrites a op := by
    cases op with
    | intSet atomic val | intAnd atomic val | intOr atomic val | intXor atomic val => exact h
    | intCompareAndExchange atomic oldval newval => exact absurd h id
    | _ => exact id
  have hadds : adds a op = 0 := by
    cases op with
    | intInc atomic | intAdd atomic val => exact if_neg h
    | intDecAndTest atomic =>
      refine if_neg fun he => hne ?_
      rw [he]
    | _ => rfl
  constructor
  · rw [call_int hover, hadds, add_zero]
  · cases op with
    | intDecAndTest atomic =>
      refine absurd ?_ hne
      rw [show atomic = a from h]
    | intCompareAndExchange atomic oldval newval => exact absurd h id
    | pointerCompareAndExchange atomic oldval newval => exact absurd h id
    | _ => exact fun he => by cases he

/-- Giving back one of `k + 1` references; it is the last one when `k` is 0. -/
theorem call_intDecAndTest {k : ℕ} (hk : k + 1 < 2 ^ 32) (hvalue : m .int a = BitVec.ofNat 32 (k + 1)) :
    (C11.call (.intDecAndTest a) m).2 .int a = BitVec.ofNat 32 k ∧
      (C11.call (.intDecAndTest a) m).1 = .bool (k == 0) := by
  have hover : ¬ Overwrites a (.intDecAndTest a) := id
  have hsucc : BitVec.ofNat 32 (k + 1) = BitVec.ofNat 32 k + 1 := BitVec.ofNat_add ..
  constructor
  · rw [call_int hover, adds, if_pos rfl, hvalue, hsucc, add_assoc, add_neg_cancel, add_zero]
  · have hresult : (C11.call (.intDecAndTest a) m).1 = .bool (m .int a == 1) := rfl
    rw [hresult, hvalue]
    congr 1
    rw [Bool.eq_iff_iff, beq_iff_eq, beq_iff_eq, hsucc]
    constructor
    · intro h
      have hzero : BitVec.ofNat 32 k = 0 := add_eq_right.1 h
      have hnat := congrArg BitVec.toNat hzero
      rw [BitVec.toNat_ofNat, Nat.mod_eq_of_lt (by omega)] at hnat
      exact hnat
    · rintro rfl
      rfl

/-- A reference is about to be given back. -/
def dropping (a : ppointer) : Outline Op Result → ℕ
  | .called op => if op = .intDecAndTest a then 1 else 0
  | .idle | .done _ => 0

/-- A thread is about to be told that its reference was the last one. -/
def telling : Outline Op Result → ℕ
  | .done r => if r = .bool true then 1 else 0
  | .idle | .called _ => 0

/-- An operation that has been called but has not happened gives back a reference, or leaves the number alone. -/
def Allowed (a : ppointer) : Outline Op Result → Prop
  | .called op => Releases a op
  | .idle | .done _ => True

/-- Of `n` references `k` have been given back, and when there is none left one thread has been told. -/
structure Released (a : ppointer) (n k : ℕ) (h : List (ι × Event Op Result))
    (d : Config ι Memory (Outline Op Result)) : Prop where
  dropped : k + d.tally (dropping a) = (calls h).count (.intDecAndTest a)
  value : d.shared .int a = BitVec.ofNat 32 (n - k)
  told : (returns h).count (.bool true) + d.tally telling = if k = n then 1 else 0
  allowed : ∀ i, Allowed a (d.loc i)

theorem Released.step {k : ℕ} {h : List (ι × Event Op Result)} {d : Config ι Memory (Outline Op Result)} {i : ι}
    {x : Move Op Result} {s : Memory} {l : Outline Op Result} (hn : n < 2 ^ 32) (hI : Released a n k h d)
    (hle : (calls (h ++ history Move.event [(i, x)])).count (.intDecAndTest a) ≤ n)
    (hok : ∀ op ∈ calls (h ++ history Move.event [(i, x)]), Releases a op)
    (hstep : c11Step i x d.shared (d.loc i) = some (s, l)) :
    ∃ k, Released a n k (h ++ history Move.event [(i, x)]) (d.set i s l) := by
  have hdropping := tally_set (dropping a) d i s l
  have htelling := tally_set telling d i s l
  have hdropped := hI.dropped
  have htold := hI.told
  obtain ⟨op, rfl, hplace, rfl, rfl⟩ | ⟨op, rfl, hplace, rfl, rfl⟩ | ⟨r, rfl, hplace, rfl, rfl⟩ :=
    c11Step_cases hstep <;> rw [hplace] at hdropping htelling
  · have hcalls : calls (h ++ history Move.event [(i, .call op)]) = calls h ++ [op] := calls_append ..
    have hreturns : returns (h ++ history Move.event [(i, .call op)]) = returns h := by
      rw [returns_append]
      exact List.append_nil _
    rw [hcalls] at hok
    have hop : Releases a op := hok op (List.mem_append_right _ (List.mem_singleton_self op))
    refine ⟨k, ?_, hI.value, ?_, forall_set (P := fun _ => Allowed a) hop fun j _ => hI.allowed j⟩
    · rw [hcalls, List.count_append, List.count_singleton, ← hdropped]
      simp only [dropping, beq_iff_eq] at hdropping ⊢
      omega
    · rw [hreturns, ← htold]
      simp only [telling] at htelling
      omega
  · have hcalls : calls (h ++ history Move.event [(i, .work)]) = calls h := by
      rw [calls_append]
      exact List.append_nil _
    have hreturns : returns (h ++ history Move.event [(i, .work)]) = returns h := by
      rw [returns_append]
      exact List.append_nil _
    rw [hcalls] at hle
    have hop : Releases a op := by
      have hallowed := hI.allowed i
      rwa [hplace] at hallowed
    have hallowed : ∀ j, Allowed a ((d.set i (C11.call op d.shared).2 (.done (C11.call op d.shared).1)).loc j) :=
      forall_set (P := fun _ => Allowed a) trivial fun j _ => hI.allowed j
    by_cases hdec : op = .intDecAndTest a
    · subst hdec
      simp only [dropping, telling, ↓reduceIte] at hdropping htelling
      have hk : k < n := by omega
      obtain ⟨j, rfl⟩ := Nat.exists_eq_add_of_lt hk
      have hleft : k + j + 1 - k = j + 1 := by omega
      have hvalue := hI.value
      rw [hleft] at hvalue
      obtain ⟨hstore, hresult⟩ := call_intDecAndTest (m := d.shared) (by omega) hvalue
      refine ⟨k + 1, ?_, ?_, ?_, hallowed⟩
      · rw [hcalls]
        omega
      · rw [shared_set, hstore, show k + j + 1 - (k + 1) = j by omega]
      · rw [hreturns]
        have htell : (if Result.bool (j == 0) = .bool true then 1 else 0) = if k + 1 = k + j + 1 then 1 else 0 :=
          if_congr (by simp) rfl rfl
        rw [if_neg (by omega)] at htold
        rw [hresult, htell] at htelling
        rw [hresult]
        omega
    · obtain ⟨hstore, hresult⟩ := call_of_releases (m := d.shared) hop hdec
      simp only [dropping, telling, if_neg hdec, if_neg hresult] at hdropping htelling
      refine ⟨k, ?_, ?_, ?_, hallowed⟩
      · rw [hcalls]
        omega
      · rw [shared_set, hstore, hI.value]
      · rw [hreturns]
        omega
  · have hcalls : calls (h ++ history Move.event [(i, .ret r)]) = calls h := by
      rw [calls_append]
      exact List.append_nil _
    have hreturns : returns (h ++ history Move.event [(i, .ret r)]) = returns h ++ [r] := returns_append ..
    refine ⟨k, ?_, hI.value, ?_, forall_set (P := fun _ => Allowed a) trivial fun j _ => hI.allowed j⟩
    · rw [hcalls]
      simp only [dropping] at hdropping
      omega
    · rw [hreturns, List.count_append, List.count_singleton]
      simp only [telling, beq_iff_eq] at htelling ⊢
      omega

omit [DecidableEq ι] in
theorem Released.start (hn : 0 < n) (hvalue : m .int a = BitVec.ofNat 32 n) :
    Released a n 0 [] (atomicStart (ι := ι) m) := by
  refine ⟨?_, hvalue, ?_, fun _ => trivial⟩
  · rw [tally_eq_zero fun _ => rfl]
    rfl
  · rw [tally_eq_zero fun _ => rfl, if_neg hn.ne]
    rfl

theorem released_of_run {ys : List (ι × Move Op Result)} {d : Config ι Memory (Outline Op Result)} (hn : 0 < n)
    (hn32 : n < 2 ^ 32) (hvalue : m .int a = BitVec.ofNat 32 n) (hrun : run c11Step (atomicStart m) ys = some d)
    (hle : (calls (history Move.event ys)).count (.intDecAndTest a) ≤ n)
    (hok : ∀ op ∈ calls (history Move.event ys), Releases a op) :
    ∃ k, Released a n k (history Move.event ys) d := by
  refine run_history_invariant (I := fun h d => (calls h).count (.intDecAndTest a) ≤ n →
    (∀ op ∈ calls h, Releases a op) → ∃ k, Released a n k h d) (h := [])
    ?_ (fun _ _ => ⟨0, .start hn hvalue⟩) hrun hle hok
  intro h d i x s l hI hstep hle hok
  have hcalls := calls_append h (history Move.event [(i, x)])
  obtain ⟨k, hreleased⟩ := hI
    (by rw [hcalls, List.count_append] at hle; omega)
    (fun op hop => hok op (by rw [hcalls]; exact List.mem_append_left _ hop))
  exact hreleased.step hn32 hle hok hstep

/-- **The last one is told.**  Of threads that give back at most `n` references, counted under the mutex,
    nobody is told that it was the last one until all `n` have been given back, and then exactly one of the
    calls is. -/
theorem patomicSim_lastReference (hrun : run simStep (start mutex m) xs = some c) (hn : 0 < n) (hn32 : n < 2 ^ 32)
    (hvalue : m .int a = BitVec.ofNat 32 n)
    (hle : (calls (history Move.event xs)).count (.intDecAndTest a) ≤ n)
    (hok : ∀ op ∈ calls (history Move.event xs), Releases a op) :
    (returns (history Move.event xs)).count (.bool true) ≤ 1 ∧
      ((calls (history Move.event xs)).count (.intDecAndTest a) < n →
        .bool true ∉ returns (history Move.event xs)) ∧
      ((∀ i, c.loc i = .idle) → (calls (history Move.event xs)).count (.intDecAndTest a) = n →
        (returns (history Move.event xs)).count (.bool true) = 1) := by
  obtain ⟨ys, d, hys, hhistory, hfollows⟩ := exists_c11Run hrun
  rw [← hhistory] at hle hok ⊢
  obtain ⟨k, hreleased⟩ := released_of_run hn hn32 hvalue hys hle hok
  have hdropped := hreleased.dropped
  have htold := hreleased.told
  refine ⟨?_, fun hlt => ?_, fun hidle hall => ?_⟩
  · split_ifs at htold <;> omega
  · rw [if_neg (by omega)] at htold
    exact List.count_eq_zero.1 (by omega)
  · have hout : ∀ i, d.loc i = .idle := fun i => by rw [hfollows.outline i, hidle i]; rfl
    have hdropping : d.tally (dropping a) = 0 := tally_eq_zero fun i => by rw [hout i]; rfl
    have htelling : d.tally telling = 0 := tally_eq_zero fun i => by rw [hout i]; rfl
    rw [htelling, if_pos (by omega)] at htold
    exact htold

/-- Two threads give back two references. -/
theorem patomicSim_lastReference_two :
    let xs : List (Fin 2 × Move Op Result) :=
      [(0, .call (.intDecAndTest 8)), (1, .call (.intDecAndTest 8)), (0, .work), (0, .work), (1, .work),
      (0, .work),
        (0, .work), (1, .work), (1, .work), (1, .work), (1, .work), (1, .ret (.bool true)),
        (0, .ret (.bool false))]
    (returns (history Move.event xs)).count (.bool true) = 1 := by
  intro xs
  obtain ⟨c, hrun, hidle⟩ : ∃ c, run simStep (start mutex fun _ _ => 2) xs = some c ∧ c.loc 0 = .idle ∧
    c.loc 1 = .idle :=
    ⟨_, rfl, rfl, rfl⟩
  have hlast := patomicSim_lastReference (a := 8) (n := 2) hrun (by decide) (by decide) rfl (by decide) (by decide)
  exact hlast.2.2 (Fin.forall_fin_two.2 hidle) rfl

end

end Plibsys.Atomic
