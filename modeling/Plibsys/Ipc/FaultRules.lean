/-
  How each call changes the account, whether it fails or not.
-/
import Mathlib.Algebra.Order.Group.Multiset
import Mathlib.Tactic.Abel
import Plibsys.Ipc.Constructors

namespace Plibsys.Faults

open Programs Resources Prog SysState Registries

/-- How often calls can still be interrupted. -/
def interruptions (s : SysState) (faults : List (Option Errno)) : ℕ :=
  s.interrupts.length + faults.countP Option.isSome

def Machine.budget (m : Machine) : ℕ := interruptions m.sys m.faults

/-- The machine holds `X`, `I` is true of the system, and `failed` tells whether a step has failed. -/
structure At (fuel : ℕ) (I : SysState → Prop) (X : Multiset Resource) (failed : Bool) (m : Machine) : Prop where
  account : m.account = ⟨X, true⟩
  failed : m.failed = failed
  budget : m.budget < fuel
  sys : I m.sys

/-- An assertion about the segments and the descriptors. -/
def AboutSegments (I : SysState → Prop) : Prop := ∀ s s', I s → s'.shms = s.shms → s'.fds = s.fds → I s'

theorem aboutSegments_true : AboutSegments fun _ => True := fun _ _ _ _ _ => trivial

/-- The machine holds `X`. -/
abbrev Held (fuel : ℕ) (X : Multiset Resource) (failed : Bool) (m : Machine) : Prop :=
  At fuel (fun _ => True) X failed m

variable {α : Type} {fuel : ℕ} {I : SysState → Prop} {X Y : Multiset Resource} {fl : Bool} {m m' : Machine}
  {R : α → Machine → Prop}

theorem At.imp {J : SysState → Prop} (h : At fuel I X fl m) (hI : ∀ s, I s → J s) : At fuel J X fl m :=
  ⟨h.account, h.failed, h.budget, hI _ h.sys⟩

theorem At.held (h : At fuel I X fl m) : Held fuel X fl m := h.imp fun _ _ => trivial

/-- The call is interrupted, or made. -/
theorem interruptible_cases {s : SysState} {call : SysState → Except Errno ℕ × SysState}
    {P : Except Errno ℕ × SysState → Prop} (hinterrupted : ∀ rest, P (.error .EINTR, { s with interrupts := rest }))
    (hcall : ∀ rest, P (call { s with interrupts := rest })) : P (s.interruptible call) := by
  rw [interruptible]
  split
  · exact hinterrupted _
  · exact hcall _
  · exact hcall s.interrupts

theorem interruptible_interrupts {s : SysState} {call : SysState → Except Errno ℕ × SysState}
    (hcall : ∀ s, (call s).2.interrupts = s.interrupts) :
    (s.interruptible call).2.interrupts.length ≤ s.interrupts.length := by
  rw [interruptible]
  split
  · rename_i h
    rw [h]
    exact Nat.le_succ _
  · rename_i h
    rw [h, hcall]
    exact Nat.le_succ _
  · exact Nat.le_of_eq (congrArg _ (hcall s))

/-- No call is interrupted more often than before. -/
theorem sysCall_interrupts (c : SysCall) (s : SysState) :
    (sysCall c s).2.interrupts.length ≤ s.interrupts.length := by
  have hle : ∀ {s' : SysState}, s'.interrupts = s.interrupts → s'.interrupts.length ≤ s.interrupts.length :=
    fun h => Nat.le_of_eq (congrArg _ h)
  cases c with
  | semOpenExcl key value =>
    refine interruptible_interrupts fun s => ?_
    cases s.sems.names key <;> rfl
  | semOpen key => exact interruptible_interrupts fun s => rfl
  | shmOpenExcl key =>
    refine interruptible_interrupts fun s => ?_
    cases s.shms.names key <;> rfl
  | shmOpen key =>
    refine interruptible_interrupts fun s => ?_
    cases s.shms.names key <;> rfl
  | _ =>
    refine hle ?_
    simp only [sysCall]
    repeat' split
    all_goals rfl

theorem resCall_sys {c : SysCall} (hc : ∀ b, c ≠ .free b) (m : Machine) :
    resCall (.sys c) m = ((m.answer c).1, { m with
    sys := (m.answer c).2, faults := m.faults.tail
    account := ((m.account.use (used c)).release (released c)).acquire (acquired c (m.answer c).1)
    failed := m.failed || fails c (m.answer c).1 }) := by
  cases c with
  | free b => exact absurd rfl (hc b)
  | _ => rfl

theorem answer_interrupts (c : SysCall) (m : Machine) :
    (m.answer c).2.interrupts.length ≤ m.sys.interrupts.length := by
  rw [Machine.answer]
  split
  · exact Nat.le_refl _
  · exact sysCall_interrupts c m.sys

/-- **A system call.**  It releases, and then acquires. -/
theorem At.after {c : SysCall} {J : SysReply c → SysState → Prop} (hc : ∀ b, c ≠ .free b) (h : At fuel I X fl m)
    (hX : X = released c + Y) (hused : used c ≤ X) (hreal : ∀ s, I s → J (sysCall c s).1 (sysCall c s).2)
    (hfault : ∀ e s, I s → J (failWith c e) s) :
    At fuel (J (m.answer c).1) (Y + acquired c (m.answer c).1) (fl || fails c (m.answer c).1)
      (resCall (.sys c) m).2 := by
  rw [resCall_sys hc]
  refine ⟨?_, ?_, ?_, ?_⟩
  · show ((m.account.use (used c)).release (released c)).acquire _ = _
    rw [h.account, Holdings.use_of_le hused, hX, Holdings.release_add]
    rfl
  · show (m.failed || _) = _
    rw [h.failed]
  · exact Nat.lt_of_le_of_lt (Nat.add_le_add (answer_interrupts c m) (List.tail_sublist _).countP_le) h.budget
  · show J (m.answer c).1 (m.answer c).2
    rw [Machine.answer]
    split
    · exact hfault _ _ h.sys
    · exact hreal _ h.sys

theorem ends_sys {c : SysCall} {f : SysReply c → ResM α} {J : SysReply c → SysState → Prop} (hc : ∀ b, c ≠ .free b)
    (h : At fuel I X fl m) (hX : X = released c + Y) (hused : used c ≤ X)
    (hreal : ∀ s, I s → J (sysCall c s).1 (sysCall c s).2) (hfault : ∀ e s, I s → J (failWith c e) s)
    (hf : ∀ r m', At fuel (J r) (Y + acquired c r) (fl || fails c r) m' → Ends resCall (f r) m' R) :
    Ends resCall (Faults.sys c >>= f) m R := by
  have hr : (resCall (.sys c) m).1 = (m.answer c).1 := by rw [resCall_sys hc]
  refine Ends.perform (hf _ _ ?_)
  rw [hr]
  exact h.after hc hX hused hreal hfault

/-- A call that has nothing to do with segments. -/
theorem ends_sys_quiet {c : SysCall} {f : SysReply c → ResM α} (hc : ∀ b, c ≠ .free b) (hI : AboutSegments I)
    (hquiet : ∀ s, (sysCall c s).2.shms = s.shms ∧ (sysCall c s).2.fds = s.fds) (h : At fuel I X fl m)
    (hX : X = released c + Y) (hused : used c ≤ X)
    (hf : ∀ r m', At fuel I (Y + acquired c r) (fl || fails c r) m' → Ends resCall (f r) m' R) :
    Ends resCall (sys c >>= f) m R :=
  ends_sys (J := fun _ => I) hc h hX hused (fun s hs => hI _ _ hs (hquiet s).1 (hquiet s).2) (fun _ _ => id) hf

variable (hI : AboutSegments I)
include hI

theorem ends_pMalloc0 {f : Option ℕ → ResM α} (h : At fuel I X fl m)
    (hnone : ∀ m', At fuel I X true m' → Ends resCall (f none) m' R)
    (hsome : ∀ b m', At fuel I ({.block b} + X) fl m' → Ends resCall (f (some b)) m' R) :
    Ends resCall (pMalloc0 >>= f) m R := by
  refine ends_sys_quiet (c := .malloc) (Y := X) nofun hI (fun _ => ⟨rfl, rfl⟩) h (zero_add X).symm
    (Multiset.zero_le _) ?_
  rintro (_ | b) m' h'
  · refine hnone m' ?_
    simpa [acquired, fails] using h'
  · refine hsome b m' ?_
    rw [add_comm]
    simpa [acquired, fails] using h'

theorem ends_pFree {b : ℕ} {f : Unit → ResM α} (h : At fuel I X fl m) (hX : X = {.block b} + Y)
    (hf : ∀ m', At fuel I Y fl m' → Ends resCall (f ()) m' R) : Ends resCall (pFree b >>= f) m R := by
  refine Ends.perform (hf _ ⟨?_, h.failed, h.budget, hI _ _ h.sys rfl rfl⟩)
  show m.account.release _ = _
  rw [h.account, hX, Holdings.release_add]

omit hI

theorem At.access {b : ℕ} (h : At fuel I X fl m) (hb : Resource.block b ∈ X) :
    At fuel I X fl (resCall (.access b) m).2 := by
  refine ⟨?_, h.failed, h.budget, h.sys⟩
  show m.account.use _ = _
  rw [h.account, Holdings.use_of_le (Multiset.singleton_le.2 hb)]

theorem ends_access {b : ℕ} {f : Unit → ResM α} (h : At fuel I X fl m) (hb : Resource.block b ∈ X)
    (hf : ∀ m', At fuel I X fl m' → Ends resCall (f ()) m' R) : Ends resCall (access b >>= f) m R :=
  Ends.perform (hf _ (h.access hb))

theorem ends_check {ok : Bool} {f : Bool → ResM α} (h : At fuel I X fl m)
    (hf : ∀ m', At fuel I X (fl || !ok) m' → Ends resCall (f ok) m' R) : Ends resCall (check ok >>= f) m R := by
  refine Ends.perform (hf _ ⟨h.account, ?_, h.budget, h.sys⟩)
  show (m.failed || _) = _
  rw [h.failed]

/-! ## Calls that are repeated -/

theorem interruptible_eintr {s : SysState} {call : SysState → Except Errno ℕ × SysState}
    (hcall : ∀ s, (call s).1 ≠ .error .EINTR) (h : (s.interruptible call).1 = .error .EINTR) :
    (s.interruptible call).2.interrupts.length < s.interrupts.length ∧ (s.interruptible call).2.shms = s.shms ∧
      (s.interruptible call).2.fds = s.fds := by
  rw [interruptible] at h ⊢
  split at h
  · rename_i hints
    rw [hints]
    exact ⟨Nat.lt_succ_self _, rfl, rfl⟩
  · exact absurd h (hcall _)
  · exact absurd h (hcall _)

/-- What an interrupted call does: it is only interrupted less often afterwards. -/
def OnlyInterrupts {c : SysCall} (r : SysReply c) : Prop := ∀ s, (sysCall c s).1 = r →
  (sysCall c s).2.interrupts.length < s.interrupts.length ∧ (sysCall c s).2.shms = s.shms ∧
  (sysCall c s).2.fds = s.fds

theorem onlyInterrupts_semOpenExcl (key : Path) (value : ℕ) :
    OnlyInterrupts (c := .semOpenExcl key value) (Except.error Errno.EINTR : Except Errno ℕ) := by
  refine fun s h => interruptible_eintr (fun s => ?_) h
  cases s.sems.names key <;> simp

theorem onlyInterrupts_semOpen (key : Path) :
    OnlyInterrupts (c := .semOpen key) (Except.error Errno.EINTR : Except Errno ℕ) := by
  refine fun s h => interruptible_eintr (fun s => ?_) h
  dsimp only
  rw [lookup]
  cases s.sems.names key <;> simp

theorem onlyInterrupts_shmOpenExcl (key : Path) :
    OnlyInterrupts (c := .shmOpenExcl key) (Except.error Errno.EINTR : Except Errno ℕ) := by
  refine fun s h => interruptible_eintr (fun s => ?_) h
  cases s.shms.names key <;> simp

theorem onlyInterrupts_shmOpen (key : Path) :
    OnlyInterrupts (c := .shmOpen key) (Except.error Errno.EINTR : Except Errno ℕ) := by
  refine fun s h => interruptible_eintr (fun s => ?_) h
  cases s.shms.names key <;> simp

theorem budget_eintr {c : SysCall} {r : SysReply c} (hc : ∀ b, c ≠ .free b) (honly : OnlyInterrupts r)
    (hr : (m.answer c).1 = r) : (resCall (.sys c) m).2.budget < m.budget := by
  rw [resCall_sys hc]
  show (m.answer c).2.interrupts.length + m.faults.tail.countP Option.isSome < _
  have hle := answer_interrupts c m
  have hle' : m.faults.tail.countP Option.isSome ≤ m.faults.countP Option.isSome := (List.tail_sublist _).countP_le
  rw [Machine.budget, interruptions]
  rcases hfault : m.fault with _ | e
  · have hreal : m.answer c = sysCall c m.sys := by rw [Machine.answer, hfault]
    rw [hreal] at hr ⊢
    have := (honly m.sys hr).1
    omega
  · obtain ⟨sys, prims, faults, account, failed⟩ := m
    rcases faults with _ | ⟨_ | e', faults⟩
    · cases hfault
    · cases hfault
    · rw [List.countP_cons_of_pos (by rfl)]
      exact Nat.lt_succ_of_le (Nat.add_le_add hle (Nat.le_refl _))

/-- A call that opens an object, with its reply as that of a program that is repeated. -/
structure Opening (c : SysCall) (toExcept : SysReply c → Except Errno ℕ) : Prop where
  free : ∀ b, c ≠ .free b
  released : released c = 0
  used : used c = 0
  interrupted : ∀ r, toExcept r = .error .EINTR → OnlyInterrupts r ∧ acquired c r = 0 ∧ fails c r = false

theorem opening_semOpenExcl (key : Path) (value : ℕ) : Opening (.semOpenExcl key value) id := by
  refine ⟨nofun, rfl, rfl, ?_⟩
  rintro _ rfl
  exact ⟨onlyInterrupts_semOpenExcl key value, rfl, rfl⟩

theorem opening_semOpen (key : Path) : Opening (.semOpen key) id := by
  refine ⟨nofun, rfl, rfl, ?_⟩
  rintro _ rfl
  exact ⟨onlyInterrupts_semOpen key, rfl, rfl⟩

theorem opening_shmOpenExcl (key : Path) : Opening (.shmOpenExcl key) id := by
  refine ⟨nofun, rfl, rfl, ?_⟩
  rintro _ rfl
  exact ⟨onlyInterrupts_shmOpenExcl key, rfl, rfl⟩

theorem opening_shmOpen (key : Path) : Opening (.shmOpen key) id := by
  refine ⟨nofun, rfl, rfl, ?_⟩
  rintro _ rfl
  exact ⟨onlyInterrupts_shmOpen key, rfl, rfl⟩

variable {c : SysCall} {toExcept : SysReply c → Except Errno ℕ} {J : SysReply c → SysState → Prop}

/-- One attempt, of which the call is interrupted or not. -/
theorem At.opening (hopen : Opening c toExcept) (hI : AboutSegments I) (h : At fuel I X fl m)
    (hr : toExcept (m.answer c).1 = .error .EINTR) :
    At fuel I X fl (resCall (.sys c) m).2 ∧ (resCall (.sys c) m).2.budget < m.budget := by
  obtain ⟨honly, hacq, hfails⟩ := hopen.interrupted _ hr
  have hafter := h.after (J := fun r s => toExcept r = .error .EINTR →
    I s) hopen.free (Y := X) (by rw [hopen.released, zero_add])
    (by rw [hopen.used]; exact Multiset.zero_le X) (fun s hs hr => ?_) (fun _ _ hs _ => hs)
  · rw [hacq, hfails, Bool.or_false, add_zero] at hafter
    exact ⟨⟨hafter.account, hafter.failed, hafter.budget, hafter.sys hr⟩, budget_eintr hopen.free honly rfl⟩
  · obtain ⟨-, hshms, hfds⟩ := (hopen.interrupted _ hr).1 s rfl
    exact hI s _ hs hshms hfds

/-- **A call that is repeated** while it is interrupted. -/
theorem ends_retryEintr {block n : ℕ} {key : PString} {call : ResM (Except Errno ℕ)} (hopen : Opening c toExcept)
    (hcall : call = sys c >>= fun r => pure (toExcept r)) (hI : AboutSegments I) (h : At fuel I X fl m)
    (hblock : Resource.block block ∈ X) (hkey : Resource.block key.block ∈ X)
    (hreal : ∀ s, I s → J (sysCall c s).1 (sysCall c s).2) (hfault : ∀ e s, I s → J (failWith c e) s)
    (hn : m.budget < n) :
    Ends resCall (retryEintr (attempt block key call) n) m fun r m' => ∃ r', r = toExcept r' ∧ r ≠ .error .EINTR ∧
      At fuel (J r') (X + acquired c r') (fl || fails c r') m' := by
  subst hcall
  induction n generalizing m with
  | zero => exact absurd hn (Nat.not_lt_zero _)
  | succ n ih =>
    have h₁ := h.access hkey
    refine Ends.perform (Ends.perform (Ends.perform ?_))
    rw [resCall_sys hopen.free]
    dsimp only
    by_cases hr : toExcept ((resCall (.access key.block) m).2.answer c).1 = .error .EINTR
    · obtain ⟨h₂, hlt⟩ := h₁.opening hopen hI hr
      have hlt' : (resCall (.access block) (resCall (.sys c) (resCall (.access key.block) m).2).2).2.budget < n :=
        Nat.lt_of_lt_of_le hlt (Nat.le_of_lt_succ hn)
      have hagain := ih (h₂.access hblock) hlt'
      rw [resCall_sys hopen.free] at hagain
      rw [hr]
      exact hagain
    · have h₂ := h₁.after (J := J) hopen.free (Y := X) (by rw [hopen.released, zero_add])
        (by rw [hopen.used]; exact Multiset.zero_le X) hreal hfault
      have hdone := h₂.access (Multiset.mem_add.2 (.inl hblock))
      rw [resCall_sys hopen.free] at hdone
      split
      · rename_i heq
        exact absurd heq hr
      · exact Ends.pure ⟨_, rfl, hr, hdone⟩

section
variable {block : ℕ} {key : PString} (hblock : Resource.block block ∈ X) (hkey : Resource.block key.block ∈ X)
  (h : At fuel I X fl m)
include hI hblock hkey h

theorem ends_semOpenExcl {value : ℕ} {f : Except Errno ℕ → ResM α}
    (hok : ∀ hdl m', At fuel I ({.sem hdl} + X) fl m' → Ends resCall (f (.ok hdl)) m' R)
    (hexists : ∀ m', At fuel I X fl m' → Ends resCall (f (.error .EEXIST)) m' R)
    (herror : ∀ e m', e ≠ .EEXIST → At fuel I X true m' → Ends resCall (f (.error e)) m' R) :
    Ends resCall (retryEintr (attempt block key (sys (.semOpenExcl key.chars value))) fuel >>= f) m R := by
  have hquiet : ∀ s, I s → I (sysCall (.semOpenExcl key.chars value) s).2 := by
    intro s hs
    refine interruptible_cases (P := fun r => I r.2) (fun _ => hI s _ hs rfl rfl) fun rest => hI s _ hs ?_ ?_ <;>
    · dsimp only
      cases s.sems.names key.chars <;> rfl
  refine (ends_retryEintr (J := fun _ => I) (opening_semOpenExcl key.chars value) rfl hI h hblock hkey hquiet
    (fun _ _ => id) h.budget).bind ?_
  rintro _ m' ⟨e | hdl, rfl, hne, h'⟩
  · by_cases he : e = .EEXIST
    · subst he
      exact hexists m' (by simpa [acquired, fails] using h')
    · have hne' : e ≠ .EINTR := fun heq => hne (congrArg Except.error heq)
      exact herror e m' he (by simpa [acquired, fails, he, hne'] using h')
  · refine hok hdl m' ?_
    rw [add_comm]
    simpa [acquired, fails] using h'

theorem ends_semOpen {f : Except Errno ℕ → ResM α}
    (hok : ∀ hdl m', At fuel I ({.sem hdl} + X) fl m' → Ends resCall (f (.ok hdl)) m' R)
    (herror : ∀ e m', At fuel I X true m' → Ends resCall (f (.error e)) m' R) :
    Ends resCall (retryEintr (attempt block key (sys (.semOpen key.chars))) fuel >>= f) m R := by
  have hquiet : ∀ s, I s → I (sysCall (.semOpen key.chars) s).2 := by
    intro s hs
    exact interruptible_cases (P := fun r => I r.2) (fun _ => hI s _ hs rfl rfl) fun rest => hI s _ hs rfl rfl
  refine (ends_retryEintr (J := fun _ => I) (opening_semOpen key.chars) rfl hI h hblock hkey hquiet
    (fun _ _ => id) h.budget).bind ?_
  rintro _ m' ⟨e | hdl, rfl, hne, h'⟩
  · have hne' : e ≠ .EINTR := fun heq => hne (congrArg Except.error heq)
    exact herror e m' (by simpa [acquired, fails, hne'] using h')
  · refine hok hdl m' ?_
    rw [add_comm]
    simpa [acquired, fails] using h'

end

/-- What is known after a segment was created, or not. -/
def AfterShmOpenExcl (shms : Registry Path psize) (name : Path) : Except Errno ℕ → SysState → Prop
  | .ok _, _ => shms.names name = none
  | .error _, s => s.shms = shms

/-- A segment is created only if there was none. -/
theorem ends_shmOpenExcl {block : ℕ} {key : PString} {shms : Registry Path psize} {f : Except Errno ℕ → ResM α}
    (hblock : Resource.block block ∈ X) (hkey : Resource.block key.block ∈ X)
    (h : At fuel (fun s => s.shms = shms) X fl m)
    (hok : ∀ d m', shms.names key.chars = none → Held fuel ({.fd d} + X) fl m' → Ends resCall (f (.ok d)) m' R)
    (hexists : ∀ m', At fuel (fun s => s.shms = shms) X fl m' → Ends resCall (f (.error .EEXIST)) m' R)
    (herror : ∀ e m', e ≠ .EEXIST → Held fuel X true m' → Ends resCall (f (.error e)) m' R) :
    Ends resCall (retryEintr (attempt block key (sys (.shmOpenExcl key.chars))) fuel >>= f) m R := by
  refine (ends_retryEintr (c := .shmOpenExcl key.chars) (J := AfterShmOpenExcl shms key.chars)
    (opening_shmOpenExcl key.chars) rfl (fun s s' hs hshms _ => hshms.trans hs) h hblock hkey
    (fun s hs => ?_) (fun _ _ => id) h.budget).bind ?_
  · refine interruptible_cases (P := fun r => AfterShmOpenExcl shms key.chars r.1 r.2) (fun _ => hs) fun rest => ?_
    have hname : shms.names key.chars = s.shms.names key.chars := by rw [hs]
    cases hnames : s.shms.names key.chars with
    | none => exact hname.trans hnames
    | some i => exact hs
  · rintro _ m' ⟨e | d, rfl, hne, h'⟩
    · by_cases he : e = .EEXIST
      · subst he
        have hkept : At fuel (fun s => s.shms = shms) (X + 0) (fl || false) m' := h'
        exact hexists m' (by simpa using hkept)
      · have hne' : e ≠ .EINTR := fun heq => hne (congrArg Except.error heq)
        exact herror e m' he (by simpa [acquired, fails, he, hne'] using h'.held)
    · refine hok d m' h'.sys ?_
      rw [add_comm]
      simpa [acquired, fails] using h'.held

/-- What the descriptor `d` refers to. -/
def Refers (shms : Registry Path psize) (d n : ℕ) (s : SysState) : Prop :=
  s.shms = shms ∧ s.fds.get d = some (some n)

/-- What is known after a segment was opened, or not. -/
def AfterShmOpen (shms : Registry Path psize) (name : Path) : Except Errno ℕ → SysState → Prop
  | .ok d, s => ∃ n, shms.names name = some n ∧ Refers shms d n s
  | .error _, s => s.shms = shms

/-- A segment is opened only if there was one. -/
theorem ends_shmOpen {block : ℕ} {key : PString} {shms : Registry Path psize} {f : Except Errno ℕ → ResM α}
    (hblock : Resource.block block ∈ X) (hkey : Resource.block key.block ∈ X)
    (h : At fuel (fun s => s.shms = shms) X fl m)
    (hok : ∀ d n m', shms.names key.chars = some n → At fuel (Refers shms d n) ({.fd d} + X) fl m' →
      Ends resCall (f (.ok d)) m' R)
    (herror : ∀ e m', Held fuel X true m' → Ends resCall (f (.error e)) m' R) :
    Ends resCall (retryEintr (attempt block key (sys (.shmOpen key.chars))) fuel >>= f) m R := by
  refine (ends_retryEintr (c := .shmOpen key.chars) (J := AfterShmOpen shms key.chars)
    (opening_shmOpen key.chars) rfl (fun s s' hs hshms _ => hshms.trans hs) h hblock hkey
    (fun s hs => ?_) (fun _ _ => id) h.budget).bind ?_
  · refine interruptible_cases (P := fun r => AfterShmOpen shms key.chars r.1 r.2) (fun _ => hs) fun rest => ?_
    have hname : shms.names key.chars = s.shms.names key.chars := by rw [hs]
    cases hnames : s.shms.names key.chars with
    | none => exact hs
    | some n => exact ⟨n, hname.trans hnames, hs, Table.get_alloc ..⟩
  · rintro _ m' ⟨e | d, rfl, hne, h'⟩
    · have hne' : e ≠ .EINTR := fun heq => hne (congrArg Except.error heq)
      exact herror e m' (by simpa [acquired, fails, hne'] using h'.held)
    · obtain ⟨n, hname, -⟩ := h'.sys
      refine hok d n m' hname ?_
      have h₁ := h'.imp (J := Refers shms d n) ?_
      · rw [add_comm]
        simpa [acquired, fails] using h₁
      · rintro s ⟨n', hname', hrefers⟩
        cases hname.symm.trans hname'
        exact hrefers

/-! ## Segments and what is released -/

/-- The size of an open segment, unless `fstat` fails. -/
theorem ends_fstat {d n : ℕ} {shms : Registry Path psize} {f : Except Errno psize → ResM α}
    (h : At fuel (Refers shms d n) X fl m) (hd : Resource.fd d ∈ X)
    (hok : ∀ m', Held fuel X fl m' → Ends resCall (f (.ok (shms.value n))) m' R)
    (herror : ∀ e m', Held fuel X true m' → Ends resCall (f (.error e)) m' R) :
    Ends resCall (sys (.fstat d) >>= f) m R := by
  refine ends_sys (c := .fstat d) (Y := X) (J := fun (r : Except Errno psize) _ => ∀ size, r = .ok size →
    size = shms.value n)
    nofun h (zero_add X).symm (Multiset.singleton_le.2 hd) ?_ nofun ?_
  · rintro s ⟨hshms, hfd⟩ size hsize
    rw [sysCall, hfd] at hsize
    cases hsize
    rw [hshms]
  · rintro (e | size) m' h'
    · exact herror e m' (by simpa [acquired, fails] using h'.held)
    · obtain rfl := h'.sys size rfl
      exact hok m' (by simpa [acquired, fails] using h'.held)

section
variable (h : Held fuel X fl m)
include h

theorem ends_held {c : SysCall} {f : SysReply c → ResM α} (hc : ∀ b, c ≠ .free b) (hX : X = released c + Y)
    (hused : used c ≤ X)
    (hf : ∀ r m', Held fuel (Y + acquired c r) (fl || fails c r) m' → Ends resCall (f r) m' R) :
    Ends resCall (sys c >>= f) m R :=
  ends_sys (J := fun _ _ => True) hc h hX hused (fun _ _ => trivial) (fun _ _ _ => trivial) hf

theorem ends_ftruncate {d : ℕ} {size : psize} {f : Except Errno Unit → ResM α} (hd : Resource.fd d ∈ X)
    (hok : ∀ m', Held fuel X fl m' → Ends resCall (f (.ok ())) m' R)
    (herror : ∀ e m', Held fuel X true m' → Ends resCall (f (.error e)) m' R) :
    Ends resCall (sys (.ftruncate d size) >>= f) m R := by
  refine ends_held h (c := .ftruncate d size) nofun (zero_add X).symm (Multiset.singleton_le.2 hd) ?_
  rintro (e | ⟨⟩) m' h'
  · exact herror e m' (by simpa [acquired, fails] using h')
  · exact hok m' (by simpa [acquired, fails] using h')

theorem ends_mmap {d : ℕ} {size : psize} {f : Except Errno ℕ → ResM α} (hd : Resource.fd d ∈ X)
    (hok : ∀ addr m', Held fuel (pageRange addr size + X) fl m' → Ends resCall (f (.ok addr)) m' R)
    (herror : ∀ e m', Held fuel X true m' → Ends resCall (f (.error e)) m' R) :
    Ends resCall (sys (.mmap d size) >>= f) m R := by
  refine ends_held h (c := .mmap d size) nofun (zero_add X).symm (Multiset.singleton_le.2 hd) ?_
  rintro (e | addr) m' h'
  · exact herror e m' (by simpa [acquired, fails] using h')
  · refine hok addr m' ?_
    rw [add_comm]
    simpa [acquired, fails] using h'

/-- **A call that releases something**, and of which a failure is only logged. -/
theorem ends_releasing {c : SysCall} {f : SysReply c → ResM α} (hc : ∀ b, c ≠ .free b) (hused : used c = 0)
    (hacquired : ∀ r, acquired c r = 0) (hfails : ∀ r, fails c r = false) (hX : X = released c + Y)
    (hf : ∀ r m', Held fuel Y fl m' → Ends resCall (f r) m' R) : Ends resCall (sys c >>= f) m R := by
  refine ends_held h hc hX (hused ▸ Multiset.zero_le X) fun r m' h' => hf r m' ?_
  rw [hacquired, hfails, add_zero, Bool.or_false] at h'
  exact h'

end

end Plibsys.Faults
