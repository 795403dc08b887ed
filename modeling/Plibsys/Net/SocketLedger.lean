/-
  Who owns which descriptor: the sockets of a process over its whole life.

  The other code of the process opens and closes descriptors too, and may hand one of its own to
  `p_socket_new_from_fd`.  It does not close the descriptor of a socket.

  When `close ()` fails in `p_socket_close`, the socket keeps a descriptor that may have been released, and
  `p_socket_free` would close that number once more.  The process does not use such a socket again.
-/
import Mathlib.Logic.Relation
import Plibsys.Net.SocketLife

namespace Plibsys.Net

open Programs Prog

/-! ## Processes -/

/-- The sockets of a process, by the places where it keeps them, and the descriptors of its other code. -/
structure Process where
  kernel : Kernel
  sockets : ℕ → Option PSocket
  foreign : Finset pint

/-- One call of the library, or one of the other code. -/
inductive Step (host : Bytes.ByteOrder) (σ : Process) : Process → Prop where
  | new {h family type protocol r k'} : σ.sockets h = none →
      Runs law (pSocketNew family type protocol) σ.kernel r k' →
      Step host σ ⟨k', Function.update σ.sockets h r.toOption, σ.foreign⟩
  | newFromFd {h fd r k'} : σ.sockets h = none → fd ∈ σ.foreign →
      Runs law (pSocketNewFromFd host fd) σ.kernel r k' →
      Step host σ ⟨k', Function.update σ.sockets h r.toOption,
        if r.toOption.isSome then σ.foreign.erase fd else σ.foreign⟩
  | accept {h h' socket fuel r k'} : σ.sockets h = some socket → σ.sockets h' = none →
      Runs law (pSocketAccept host fuel socket) σ.kernel r k' →
      Step host σ ⟨k', Function.update σ.sockets h' r.toOption, σ.foreign⟩
  | op {h socket fuel s k'} (op : SocketOp) : σ.sockets h = some socket →
      Runs law (op.prog host fuel socket) σ.kernel s k' →
      Step host σ ⟨k', Function.update σ.sockets h (some s), σ.foreign⟩
  | close {h socket r k'} : σ.sockets h = some socket → Runs law (pSocketClose socket) σ.kernel r k' →
      Step host σ ⟨k', Function.update σ.sockets h (r.1.toOption.map fun _ => r.2), σ.foreign⟩
  | free {h socket u k'} : σ.sockets h = some socket → Runs law (pSocketFree socket) σ.kernel u k' →
      Step host σ ⟨k', Function.update σ.sockets h none, σ.foreign⟩
  | otherOpens {fd k'} : σ.kernel.Opens fd k' → Step host σ ⟨k', σ.sockets, insert fd σ.foreign⟩
  | otherCloses {fd r k'} : fd ∈ σ.foreign → law (.close fd) σ.kernel r k' →
      Step host σ ⟨k', σ.sockets, σ.foreign.erase fd⟩

/-- **Each open descriptor has one owner.** -/
structure Owned (σ : Process) : Prop where
  nonneg : ∀ fd ∈ σ.kernel.descriptors, 0 ≤ fd
  /-- The library closes no descriptor of the other code. -/
  foreign : ∀ fd ∈ σ.foreign, fd ∈ σ.kernel.descriptors
  settled : ∀ h s, σ.sockets h = some s → Settled s
  /-- A socket that is not closed has an open descriptor of its own. -/
  own : ∀ h s, σ.sockets h = some s → s.closed = false → s.fd ∈ σ.kernel.descriptors ∧ s.fd ∉ σ.foreign
  distinct : ∀ h h' s s', σ.sockets h = some s → σ.sockets h' = some s' → s.closed = false → s'.closed = false →
    s.fd = s'.fd → h = h'
  /-- No descriptor is lost, unless `close ()` has failed for it. -/
  accounted : ∀ fd ∈ σ.kernel.descriptors, fd ∈ σ.foreign ∨ fd ∈ σ.kernel.failed ∨
    ∃ h s, σ.sockets h = some s ∧ s.closed = false ∧ s.fd = fd

section
variable {σ σ' : Process} {h h' : ℕ} {o : Option PSocket} {s s' : PSocket} {k' : Kernel}

theorem update_eq_some : Function.update σ.sockets h o h' = some s ↔
    h' = h ∧ o = some s ∨ h' ≠ h ∧ σ.sockets h' = some s := by
  by_cases heq : h' = h
  · subst heq
    simp
  · simp [heq]

theorem Owned.neg_one (hσ : Owned σ) : -1 ∉ σ.kernel.descriptors :=
  fun hfd => absurd (hσ.nonneg _ hfd) (by decide)

/-- A socket has been made, or not, with a new descriptor. -/
theorem Owned.gains (hσ : Owned σ) (hh : σ.sockets h = none) (hk : σ.kernel.Gains (o.map PSocket.fd) k')
    (hopen : ∀ s, o = some s → s.closed = false) : Owned ⟨k', Function.update σ.sockets h o, σ.foreign⟩ := by
  have hnew : ∀ s, o = some s → s.fd ∈ k'.descriptors ∧ s.fd ∉ σ.kernel.descriptors := by
    intro s ho
    exact hk.new_open s.fd (by rw [ho]; rfl)
  constructor
  · intro fd hfd
    rcases hk.accounted fd hfd with hfd | ⟨hfd, -⟩
    · exact hσ.nonneg fd hfd
    · exact hfd
  · exact fun fd hfd => (hk.kept fd (hσ.foreign fd hfd)).1
  · intro h' s hs
    rcases update_eq_some.1 hs with ⟨-, ho⟩ | ⟨-, hs'⟩
    · intro hclosed
      rw [hopen s ho] at hclosed
      cases hclosed
    · exact hσ.settled h' s hs'
  · intro h' s hs hclosed
    rcases update_eq_some.1 hs with ⟨-, ho⟩ | ⟨-, hs'⟩
    · obtain ⟨hmem, hfresh⟩ := hnew s ho
      exact ⟨hmem, fun hforeign => hfresh (hσ.foreign _ hforeign)⟩
    · obtain ⟨hmem, hforeign⟩ := hσ.own h' s hs' hclosed
      exact ⟨(hk.kept _ hmem).1, hforeign⟩
  · intro h₁ h₂ s₁ s₂ hs₁ hs₂ hc₁ hc₂ hfd
    rcases update_eq_some.1 hs₁ with ⟨heq₁, ho₁⟩ | ⟨-, hs₁'⟩
    · rcases update_eq_some.1 hs₂ with ⟨heq₂, -⟩ | ⟨-, hs₂'⟩
      · exact heq₁.trans heq₂.symm
      · refine absurd (hσ.own h₂ s₂ hs₂' hc₂).1 ?_
        rw [← hfd]
        exact (hnew s₁ ho₁).2
    · rcases update_eq_some.1 hs₂ with ⟨-, ho₂⟩ | ⟨-, hs₂'⟩
      · refine absurd (hσ.own h₁ s₁ hs₁' hc₁).1 ?_
        rw [hfd]
        exact (hnew s₂ ho₂).2
      · exact hσ.distinct h₁ h₂ s₁ s₂ hs₁' hs₂' hc₁ hc₂ hfd
  · intro fd hfd
    rcases hk.accounted fd hfd with hold | ⟨-, hfailed | hnew⟩
    · rcases hσ.accounted fd hold with hforeign | hfailed | ⟨h', s, hs, hclosed, hfd⟩
      · exact .inl hforeign
      · exact .inr (.inl ((hk.kept fd hold).2 hfailed))
      · refine .inr (.inr ⟨h', s, update_eq_some.2 (.inr ⟨?_, hs⟩), hclosed, hfd⟩)
        rintro rfl
        rw [hh] at hs
        cases hs
    · exact .inr (.inl hfailed)
    · obtain ⟨s, ho, hfd⟩ := Option.map_eq_some_iff.1 hnew
      exact .inr (.inr ⟨h, s, update_eq_some.2 (.inl ⟨rfl, ho⟩), hopen s ho, hfd⟩)

/-- A socket has taken a descriptor of the other code. -/
theorem Owned.takes (hσ : Owned σ) (hh : σ.sockets h = none) (hforeign : s.fd ∈ σ.foreign)
    (hopen : s.closed = false) :
    Owned ⟨σ.kernel, Function.update σ.sockets h (some s), σ.foreign.erase s.fd⟩ := by
  constructor
  · exact hσ.nonneg
  · exact fun fd hfd => hσ.foreign fd (Finset.mem_of_mem_erase hfd)
  · intro h' s' hs
    rcases update_eq_some.1 hs with ⟨-, ho⟩ | ⟨-, hs'⟩
    · obtain rfl := Option.some.inj ho
      intro hclosed
      rw [hopen] at hclosed
      cases hclosed
    · exact hσ.settled h' s' hs'
  · intro h' s' hs hclosed
    rcases update_eq_some.1 hs with ⟨-, ho⟩ | ⟨-, hs'⟩
    · obtain rfl := Option.some.inj ho
      exact ⟨hσ.foreign _ hforeign, Finset.notMem_erase _ _⟩
    · obtain ⟨hmem, hnot⟩ := hσ.own h' s' hs' hclosed
      exact ⟨hmem, fun h => hnot (Finset.mem_of_mem_erase h)⟩
  · intro h₁ h₂ s₁ s₂ hs₁ hs₂ hc₁ hc₂ hfd
    rcases update_eq_some.1 hs₁ with ⟨heq₁, ho₁⟩ | ⟨-, hs₁'⟩
    · rcases update_eq_some.1 hs₂ with ⟨heq₂, -⟩ | ⟨-, hs₂'⟩
      · exact heq₁.trans heq₂.symm
      · obtain rfl := Option.some.inj ho₁
        rw [hfd] at hforeign
        exact absurd hforeign (hσ.own h₂ s₂ hs₂' hc₂).2
    · rcases update_eq_some.1 hs₂ with ⟨-, ho₂⟩ | ⟨-, hs₂'⟩
      · obtain rfl := Option.some.inj ho₂
        rw [← hfd] at hforeign
        exact absurd hforeign (hσ.own h₁ s₁ hs₁' hc₁).2
      · exact hσ.distinct h₁ h₂ s₁ s₂ hs₁' hs₂' hc₁ hc₂ hfd
  · intro fd hfd
    by_cases heq : fd = s.fd
    · exact .inr (.inr ⟨h, s, update_eq_some.2 (.inl ⟨rfl, rfl⟩), hopen, heq.symm⟩)
    · rcases hσ.accounted fd hfd with hforeign | hfailed | ⟨h', s', hs, hclosed, hfd⟩
      · exact .inl (Finset.mem_erase.2 ⟨heq, hforeign⟩)
      · exact .inr (.inl hfailed)
      · refine .inr (.inr ⟨h', s', update_eq_some.2 (.inr ⟨?_, hs⟩), hclosed, hfd⟩)
        rintro rfl
        rw [hh] at hs
        cases hs

/-- A socket in use. -/
theorem Owned.keeps (hσ : Owned σ) (hs : σ.sockets h = some s) (hkept : Kept s s') :
    Owned ⟨σ.kernel, Function.update σ.sockets h (some s'), σ.foreign⟩ := by
  obtain ⟨⟨hfd', hclosed'⟩, hsettled⟩ := hkept
  have hold : ∀ {h₁ s₁}, Function.update σ.sockets h (some s') h₁ = some s₁ →
      ∃ s₂, σ.sockets h₁ = some s₂ ∧ s₁.fd = s₂.fd ∧ s₁.closed = s₂.closed := by
    intro h₁ s₁ hs₁
    rcases update_eq_some.1 hs₁ with ⟨rfl, ho⟩ | ⟨-, hs₁'⟩
    · obtain rfl := Option.some.inj ho
      exact ⟨s, hs, hfd', hclosed'⟩
    · exact ⟨s₁, hs₁', rfl, rfl⟩
  constructor
  · exact hσ.nonneg
  · exact hσ.foreign
  · intro h₁ s₁ hs₁
    rcases update_eq_some.1 hs₁ with ⟨-, ho⟩ | ⟨-, hs₁'⟩
    · obtain rfl := Option.some.inj ho
      exact hsettled (hσ.settled h s hs)
    · exact hσ.settled h₁ s₁ hs₁'
  · intro h₁ s₁ hs₁ hc₁
    obtain ⟨s₂, hs₂, hfd, hclosed⟩ := hold hs₁
    rw [hfd]
    exact hσ.own h₁ s₂ hs₂ (hclosed.symm.trans hc₁)
  · intro h₁ h₂ s₁ s₂ hs₁ hs₂ hc₁ hc₂ hfd
    obtain ⟨s₃, hs₃, hfd₃, hclosed₃⟩ := hold hs₁
    obtain ⟨s₄, hs₄, hfd₄, hclosed₄⟩ := hold hs₂
    exact hσ.distinct h₁ h₂ s₃ s₄ hs₃ hs₄ (hclosed₃.symm.trans hc₁) (hclosed₄.symm.trans hc₂)
      (hfd₃.symm.trans (hfd.trans hfd₄))
  · intro fd hfd
    rcases hσ.accounted fd hfd with hforeign | hfailed | ⟨h₁, s₁, hs₁, hclosed, hfd⟩
    · exact .inl hforeign
    · exact .inr (.inl hfailed)
    · by_cases heq : h₁ = h
      · subst heq
        obtain rfl := Option.some.inj (hs.symm.trans hs₁)
        exact .inr (.inr ⟨h₁, s', update_eq_some.2 (.inl ⟨rfl, rfl⟩), hclosed'.trans hclosed, hfd'.trans hfd⟩)
      · exact .inr (.inr ⟨h₁, s₁, update_eq_some.2 (.inr ⟨heq, hs₁⟩), hclosed, hfd⟩)

/-- What a close does to the descriptors. -/
theorem Closing.descriptors {k : Kernel} (h : Closing s k s' k') :
    (∀ fd ∈ k'.descriptors, fd ∈ k.descriptors ∧ (s.closed = false → s.fd = fd → fd ∈ k'.failed)) ∧
    (∀ fd ∈ k.descriptors, (s.closed = false → s.fd ≠ fd) → fd ∈ k'.descriptors) ∧
    ∀ fd ∈ k.failed, fd ∈ k'.failed := by
  cases h with
  | already hclosed =>
    refine ⟨fun fd hfd => ⟨hfd, fun hopen => ?_⟩, fun fd hfd _ => hfd, fun fd hfd => hfd⟩
    rw [hclosed] at hopen
    cases hopen
  | done hopen =>
    refine ⟨fun fd hfd => ?_, fun fd hfd hne => ?_, fun fd hfd => hfd⟩
    · obtain ⟨hne, hfd⟩ := Finset.mem_erase.1 hfd
      exact ⟨hfd, fun _ heq => absurd heq.symm hne⟩
    · exact Finset.mem_erase.2 ⟨(hne hopen).symm, hfd⟩
  | failed hopen hfails =>
    cases hfails with
    | released =>
      refine ⟨fun fd hfd => ?_, fun fd hfd hne => ?_, fun fd hfd => hfd⟩
      · obtain ⟨hne, hfd⟩ := Finset.mem_erase.1 hfd
        exact ⟨hfd, fun _ heq => absurd heq.symm hne⟩
      · exact Finset.mem_erase.2 ⟨(hne hopen).symm, hfd⟩
    | left =>
      refine ⟨fun fd hfd => ⟨hfd, fun _ heq => ?_⟩, fun fd hfd _ => hfd,
        fun fd hfd => Finset.mem_insert_of_mem hfd⟩
      rw [← heq]
      exact Finset.mem_insert_self _ _

/-- A socket is forgotten; its descriptor is closed, or has failed to close. -/
theorem Owned.forgets (hσ : Owned σ) (hs : σ.sockets h = some s) (hclosing : Closing s σ.kernel s' k') :
    Owned ⟨k', Function.update σ.sockets h none, σ.foreign⟩ := by
  obtain ⟨hsub, hkept, hfailed⟩ := hclosing.descriptors
  have hother : ∀ {h₁ s₁}, Function.update σ.sockets h none h₁ = some s₁ → h₁ ≠ h ∧ σ.sockets h₁ = some s₁ := by
    intro h₁ s₁ hs₁
    rcases update_eq_some.1 hs₁ with ⟨-, ho⟩ | hold
    · cases ho
    · exact hold
  constructor
  · exact fun fd hfd => hσ.nonneg fd (hsub fd hfd).1
  · intro fd hfd
    refine hkept fd (hσ.foreign fd hfd) ?_
    rintro hopen rfl
    exact (hσ.own h s hs hopen).2 hfd
  · exact fun h₁ s₁ hs₁ => hσ.settled h₁ s₁ (hother hs₁).2
  · intro h₁ s₁ hs₁ hc₁
    obtain ⟨hne, hs₁'⟩ := hother hs₁
    obtain ⟨hmem, hforeign⟩ := hσ.own h₁ s₁ hs₁' hc₁
    refine ⟨hkept _ hmem fun hopen heq => ?_, hforeign⟩
    exact hne (hσ.distinct h₁ h s₁ s hs₁' hs hc₁ hopen heq.symm)
  · intro h₁ h₂ s₁ s₂ hs₁ hs₂
    exact hσ.distinct h₁ h₂ s₁ s₂ (hother hs₁).2 (hother hs₂).2
  · intro fd hfd
    obtain ⟨hold, hlost⟩ := hsub fd hfd
    rcases hσ.accounted fd hold with hforeign | hfail | ⟨h₁, s₁, hs₁, hclosed, hfd₁⟩
    · exact .inl hforeign
    · exact .inr (.inl (hfailed fd hfail))
    · by_cases heq : h₁ = h
      · subst heq
        obtain rfl := Option.some.inj (hs.symm.trans hs₁)
        exact .inr (.inl (hlost hclosed hfd₁))
      · exact .inr (.inr ⟨h₁, s₁, update_eq_some.2 (.inr ⟨heq, hs₁⟩), hclosed, hfd₁⟩)

/-- A closed socket is kept. -/
theorem Owned.buries (hσ : Owned σ) (hh : σ.sockets h = none) (hclosed : s.closed = true) (hsettled : Settled s) :
    Owned ⟨σ.kernel, Function.update σ.sockets h (some s), σ.foreign⟩ := by
  have hother : ∀ {h₁ s₁}, Function.update σ.sockets h (some s) h₁ = some s₁ → s₁.closed = false →
      σ.sockets h₁ = some s₁ := by
    intro h₁ s₁ hs₁ hc₁
    rcases update_eq_some.1 hs₁ with ⟨-, ho⟩ | ⟨-, hold⟩
    · obtain rfl := Option.some.inj ho
      rw [hclosed] at hc₁
      cases hc₁
    · exact hold
  constructor
  · exact hσ.nonneg
  · exact hσ.foreign
  · intro h₁ s₁ hs₁
    rcases update_eq_some.1 hs₁ with ⟨-, ho⟩ | ⟨-, hs₁'⟩
    · obtain rfl := Option.some.inj ho
      exact hsettled
    · exact hσ.settled h₁ s₁ hs₁'
  · exact fun h₁ s₁ hs₁ hc₁ => hσ.own h₁ s₁ (hother hs₁ hc₁) hc₁
  · exact fun h₁ h₂ s₁ s₂ hs₁ hs₂ hc₁ hc₂ => hσ.distinct h₁ h₂ s₁ s₂ (hother hs₁ hc₁) (hother hs₂ hc₂) hc₁ hc₂
  · intro fd hfd
    rcases hσ.accounted fd hfd with hforeign | hfail | ⟨h₁, s₁, hs₁, hc₁, hfd₁⟩
    · exact .inl hforeign
    · exact .inr (.inl hfail)
    · refine .inr (.inr ⟨h₁, s₁, update_eq_some.2 (.inr ⟨?_, hs₁⟩), hc₁, hfd₁⟩)
      rintro rfl
      rw [hh] at hs₁
      cases hs₁

/-- A socket is closed. -/
theorem Owned.closes (hσ : Owned σ) (hs : σ.sockets h = some s) (hclosing : Closing s σ.kernel s' k')
    (hclosed : s'.closed = true) : Owned ⟨k', Function.update σ.sockets h (some s'), σ.foreign⟩ := by
  cases hclosing with
  | already =>
    rw [← hs, Function.update_eq_self]
    exact hσ
  | failed hopen =>
    rw [hopen] at hclosed
    cases hclosed
  | done hopen =>
    have hburied := (hσ.forgets hs (.done hopen)).buries (Function.update_self ..)
      (rfl : ({ s with connected := false, closed := true, listening := false, fd := -1 } : PSocket).closed = true)
      fun _ => ⟨rfl, rfl, rfl⟩
    rw [Function.update_idem] at hburied
    exact hburied

/-- The other code has opened a descriptor. -/
theorem Owned.otherOpens (hσ : Owned σ) {fd : pint} (hopens : σ.kernel.Opens fd k') :
    Owned ⟨k', σ.sockets, insert fd σ.foreign⟩ := by
  obtain ⟨hnonneg, hfresh, rfl⟩ := hopens
  constructor
  · intro fd' hfd'
    rcases Finset.mem_insert.1 hfd' with rfl | hfd'
    · exact hnonneg
    · exact hσ.nonneg fd' hfd'
  · intro fd' hfd'
    rcases Finset.mem_insert.1 hfd' with rfl | hfd'
    · exact Finset.mem_insert_self _ _
    · exact Finset.mem_insert_of_mem (hσ.foreign fd' hfd')
  · exact hσ.settled
  · intro h s hs hclosed
    obtain ⟨hmem, hforeign⟩ := hσ.own h s hs hclosed
    refine ⟨Finset.mem_insert_of_mem hmem, fun hin => ?_⟩
    rcases Finset.mem_insert.1 hin with heq | hin
    · rw [heq] at hmem
      exact hfresh hmem
    · exact hforeign hin
  · exact hσ.distinct
  · intro fd' hfd'
    rcases Finset.mem_insert.1 hfd' with heq | hmem
    · rw [heq]
      exact .inl (Finset.mem_insert_self _ _)
    · rcases hσ.accounted fd' hmem with hforeign | hfail | howner
      · exact .inl (Finset.mem_insert_of_mem hforeign)
      · refine .inr (.inl (Finset.mem_erase.2 ⟨?_, hfail⟩))
        rintro rfl
        exact hfresh hmem
      · exact .inr (.inr howner)

/-- The other code has closed one of its descriptors, or given it up. -/
theorem Owned.otherCloses (hσ : Owned σ) {fd : pint} {r : Except Errno Unit} (hfd : fd ∈ σ.foreign)
    (hclose : law (.close fd) σ.kernel r k') : Owned ⟨k', σ.sockets, σ.foreign.erase fd⟩ := by
  have herased : Owned ⟨⟨σ.kernel.descriptors.erase fd, σ.kernel.failed⟩, σ.sockets, σ.foreign.erase fd⟩ := by
    constructor
    · exact fun fd' hfd' => hσ.nonneg fd' (Finset.mem_of_mem_erase hfd')
    · exact fun fd' hfd' => Finset.erase_subset_erase fd hσ.foreign hfd'
    · exact hσ.settled
    · intro h s hs hclosed
      obtain ⟨hmem, hforeign⟩ := hσ.own h s hs hclosed
      refine ⟨Finset.mem_erase.2 ⟨?_, hmem⟩, fun hin => hforeign (Finset.mem_of_mem_erase hin)⟩
      rintro rfl
      exact hforeign hfd
    · exact hσ.distinct
    · intro fd' hfd'
      obtain ⟨hne, hmem⟩ := Finset.mem_erase.1 hfd'
      rcases hσ.accounted fd' hmem with hforeign | hfail | howner
      · exact .inl (Finset.mem_erase.2 ⟨hne, hforeign⟩)
      · exact .inr (.inl hfail)
      · exact .inr (.inr howner)
  rcases r with e | u
  · cases hclose with
    | released => exact herased
    | left =>
      refine ⟨hσ.nonneg, fun fd' hfd' => hσ.foreign fd' (Finset.mem_of_mem_erase hfd'), hσ.settled, ?_,
        hσ.distinct, ?_⟩
      · intro h s hs hclosed
        obtain ⟨hmem, hforeign⟩ := hσ.own h s hs hclosed
        exact ⟨hmem, fun hin => hforeign (Finset.mem_of_mem_erase hin)⟩
      · intro fd' hfd'
        by_cases heq : fd' = fd
        · rw [heq]
          exact .inr (.inl (Finset.mem_insert_self _ _))
        · rcases hσ.accounted fd' hfd' with hforeign | hfail | howner
          · exact .inl (Finset.mem_erase.2 ⟨heq, hforeign⟩)
          · exact .inr (.inl (Finset.mem_insert_of_mem hfail))
          · exact .inr (.inr howner)
  · obtain ⟨-, rfl⟩ := hclose
    exact herased

variable {host : Bytes.ByteOrder}

/-- One call keeps the account. -/
theorem Owned.step (hσ : Owned σ) (hstep : Step host σ σ') : Owned σ' := by
  cases hstep with
  | @new h family type protocol r k' hh hrun =>
    obtain ⟨hgains, hopen⟩ := (safe_new family type protocol).of_runs hrun
    refine hσ.gains hh hgains ?_
    rcases r with e | s <;> rintro _ ⟨⟩
    exact hopen s rfl
  | @newFromFd h fd r k' hh hfd hrun =>
    obtain ⟨rfl, hnew⟩ := (neutral_newFromFd fd).of_runs hrun
    rcases r with e | s
    · exact hσ.gains hh (.refl _) fun s hs => by cases hs
    · obtain ⟨rfl, hopen⟩ := hnew s rfl
      exact hσ.takes hh hfd hopen
  | @accept h h' socket fuel r k' hs hh hrun =>
    obtain ⟨hgains, hopen⟩ := safe_accept.of_runs hrun
    refine hσ.gains hh hgains ?_
    rcases r with e | s <;> rintro _ ⟨⟩
    exact hopen s rfl
  | op op hs hrun =>
    obtain ⟨rfl, hkept⟩ := (neutral_op op (hσ.settled _ _ hs) hσ.neg_one).of_runs hrun
    exact hσ.keeps hs hkept
  | @close h socket r k' hs hrun =>
    obtain ⟨hclosing, hclosed⟩ := (safe_close socket).of_runs hrun
    obtain ⟨r, s'⟩ := r
    rcases r with e | u
    · exact hσ.forgets hs hclosing
    · exact hσ.closes hs hclosing (hclosed rfl)
  | free hs hrun =>
    have hfree : ∀ socket,
        Safe law (pSocketFree socket) σ.kernel fun _ k' => ∃ s', Closing socket σ.kernel s' k' :=
      fun socket => Safe.bind (safe_close socket) fun r k' h => Safe.pure ⟨r.2, h.1⟩
    obtain ⟨s', hclosing⟩ := (hfree _).of_runs hrun
    exact hσ.forgets hs hclosing
  | otherOpens hopens => exact hσ.otherOpens hopens
  | otherCloses hfd hclose => exact hσ.otherCloses hfd hclose

end

end Plibsys.Net
