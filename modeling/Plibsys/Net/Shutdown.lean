/-
  Shutting down the directions of a socket: histories of calls of `p_socket_shutdown`, and what
  `p_socket_is_connected` and `p_socket_is_closed` say after them (`psocket.c`).

  A `pboolean` is a `signed int`, and every value of it other than `FALSE` asks for a direction.
-/
import Mathlib.Data.List.Basic
import Mathlib.Data.List.TakeWhile
import Plibsys.Net.Socket

namespace Plibsys.Net.Shutdown

open Programs Prog

def reads : How → Bool
  | .SHUT_RD | .SHUT_RDWR => true
  | .SHUT_WR => false

def writes : How → Bool
  | .SHUT_WR | .SHUT_RDWR => true
  | .SHUT_RD => false

/-! ## Histories of calls -/

/-- What the system has been asked to shut down. -/
abbrev Passed := List (pint × How)

/-- A system that shuts down what it is asked to.  It is not asked for anything else. -/
def system : (c : SysCall) → Passed → c.Reply × Passed
  | .shutdown fd how, passed => (.ok (), passed ++ [(fd, how)])
  | .malloc, passed => (false, passed)
  | .poll .., passed => ((0, Errno.EINVAL), passed)
  | .socket .., passed | .close _, passed | .getFl _, passed | .setFl .., passed | .getFd _, passed
  | .setFd .., passed | .getType _, passed | .getDomain _, passed | .getKeepalive _, passed | .getError _, passed
  | .setsockopt .., passed | .getsockname _, passed | .getpeername _, passed | .bind .., passed
  | .connect .., passed | .listen .., passed | .transfer .., passed => (Except.error Errno.EINVAL, passed)

/-- The two arguments of a call. -/
abbrev Call := pboolean × pboolean

/-- What a call leaves behind: the socket, what the system was asked to shut down, and the result. -/
structure Outcome where
  socket : PSocket
  passed : Passed
  result : Except PError Unit

/-- A call in which the system shuts down what it is asked to. -/
def call (socket : PSocket) (c : Call) : Option Outcome :=
  ((pSocketShutdown socket c.1 c.2).exec system []).map fun r => ⟨r.1.2, r.2, r.1.1⟩

def afterCalls (socket : PSocket) (calls : List Call) : Option PSocket :=
  calls.foldlM (fun socket c => (call socket c).map Outcome.socket) socket

/-- The directions that are passed on are those that the call asked for, and `fd` is the descriptor. -/
def PassesOn (fd : pint) (c : Call) (passed : Passed) : Prop :=
  (passed.any (reads ·.2) ↔ c.1 ≠ FALSE) ∧ (passed.any (writes ·.2) ↔ c.2 ≠ FALSE) ∧ ∀ p ∈ passed, p.1 = fd

/-- Some call has asked for each of the directions. -/
def BothRequested (calls : List Call) : Prop := (∃ c ∈ calls, c.1 ≠ FALSE) ∧ ∃ c ∈ calls, c.2 ≠ FALSE

/-- **The bookkeeping of shutdowns**: every call passes on the directions that it was asked for, on
    the descriptor of the socket, and the socket counts as connected until both have been shut down. -/
structure Bookkeeping (socket : PSocket) (calls : List Call) : Prop where
  passes : ∀ before c after, calls = before ++ c :: after → ∃ s o,
    afterCalls socket before = some s ∧ call s c = some o ∧ PassesOn socket.fd c o.passed
  disconnects : ∀ before, before <+: calls → BothRequested before →
    (afterCalls socket before).map pSocketIsConnected = some FALSE
  stays : ∀ before, before <+: calls → ¬ BothRequested before →
    (afterCalls socket before).map pSocketIsConnected = some (pSocketIsConnected socket)

/-- The arguments a call understands: reading is `FALSE`, or it is `TRUE` and writing is one of the two. -/
def Understood (c : Call) : Prop := c.1 = FALSE ∨ c.1 = TRUE ∧ (c.2 = FALSE ∨ c.2 = TRUE)

/-- No two of the calls ask for different directions, and none for both. -/
def OneDirection (calls : List Call) : Prop := (∀ c ∈ calls, c.1 = FALSE) ∨ ∀ c ∈ calls, c.2 = FALSE

variable {s : PSocket} {c : Call} {calls before : List Call}

instance : Decidable (BothRequested calls) := inferInstanceAs (Decidable (_ ∧ _))

instance : DecidablePred Understood := fun c => inferInstanceAs (Decidable (c.1 = FALSE ∨ _))

instance : Decidable (OneDirection calls) := inferInstanceAs (Decidable (_ ∨ _))

/-! ## One call -/

theorem ppSocketCheck_of_open (hopen : s.closed = false) : ppSocketCheck s = .ok () := by
  rw [ppSocketCheck, hopen, if_neg Bool.false_ne_true]

/-- A call that fails leaves the socket as it was, whatever the system does. -/
theorem socket_of_error {S : Type} {sys : (c : SysCall) → S → c.Reply × S} {σ σ' : S} {r w : pboolean} {e : PError}
    {s' : PSocket} (h : (pSocketShutdown s r w).exec sys σ = some ((.error e, s'), σ')) : s' = s := by
  unfold pSocketShutdown at h
  rcases hcheck : ppSocketCheck s with e' | ⟨⟩
  · simp only [hcheck] at h
    cases h
    rfl
  simp only [hcheck] at h
  by_cases hnone : r = FALSE ∧ w = FALSE
  · simp only [if_pos hnone] at h
    cases h
  simp only [if_neg hnone, perform, exec_bind, exec_perform, Option.bind_some] at h
  rcases hsys : (sys (.shutdown s.fd (how r w)) σ).1 with e' | ⟨⟩
  · rw [hsys] at h
    cases h
    rfl
  · rw [hsys] at h
    by_cases hboth : r = TRUE ∧ w = TRUE
    · simp only [if_pos hboth] at h
      cases h
    · simp only [if_neg hboth] at h
      cases h

/-- A call on an open socket: only the arguments `TRUE` and `TRUE` end the connection. -/
theorem call_of_open (hopen : s.closed = false) :
    call s c = some ⟨{ s with connected := s.connected && c != (TRUE, TRUE) },
      if c.1 = FALSE ∧ c.2 = FALSE then [] else [(s.fd, how c.1 c.2)], .ok ()⟩ := by
  obtain ⟨r, w⟩ := c
  unfold call pSocketShutdown
  simp only [ppSocketCheck_of_open hopen]
  by_cases hboth : r = TRUE ∧ w = TRUE
  · obtain ⟨rfl, rfl⟩ := hboth
    simp [true_ne_false, perform, system]
  · have hne : ((r, w) != (TRUE, TRUE)) = true := by simpa using hboth
    rw [hne, Bool.and_true]
    by_cases hnone : r = FALSE ∧ w = FALSE
    · simp only [if_pos hnone]
      rfl
    · simp only [if_neg hnone, if_neg hboth]
      rfl

theorem reads_how (r w : pboolean) : reads (how r w) ↔ r = TRUE := by
  unfold how
  by_cases hr : r = TRUE <;> by_cases hw : w = TRUE <;> simp [hr, hw, reads]

theorem writes_how (r w : pboolean) : writes (how r w) ↔ r ≠ TRUE ∨ w = TRUE := by
  unfold how
  by_cases hr : r = TRUE <;> by_cases hw : w = TRUE <;> simp [hr, hw, writes]

/-- A call passes on what it was asked for if and only if it understands its arguments. -/
theorem passesOn_iff (fd : pint) (c : Call) :
    PassesOn fd c (if c.1 = FALSE ∧ c.2 = FALSE then [] else [(fd, how c.1 c.2)]) ↔ Understood c := by
  obtain ⟨r, w⟩ := c
  unfold PassesOn Understood
  by_cases hnone : r = FALSE ∧ w = FALSE
  · simp [hnone]
  simp only [if_neg hnone, List.any_cons, List.any_nil, Bool.or_false, reads_how, writes_how, List.mem_singleton,
    forall_eq, and_true]
  constructor
  · rintro ⟨hread, hwrite⟩
    by_cases hr : r = FALSE
    · exact Or.inl hr
    have htrue : r = TRUE := hread.2 hr
    by_cases hw : w = FALSE
    · exact Or.inr ⟨htrue, Or.inl hw⟩
    · exact Or.inr ⟨htrue, Or.inr ((hwrite.2 hw).resolve_left (not_not_intro htrue))⟩
  · rintro (rfl | ⟨rfl, rfl | rfl⟩)
    · exact ⟨⟨fun h => absurd h true_ne_false.symm, fun h => absurd rfl h⟩,
        fun _ hw => hnone ⟨rfl, hw⟩, fun _ => Or.inl true_ne_false.symm⟩
    · simp [true_ne_false, true_ne_false.symm]
    · simp [true_ne_false]

/-! ## Histories -/

theorem bothRequested_iff : BothRequested calls ↔ ¬ OneDirection calls := by
  unfold BothRequested OneDirection
  push Not
  rfl

theorem bothRequested_of_mem (h : (TRUE, TRUE) ∈ calls) : BothRequested calls :=
  ⟨⟨_, h, true_ne_false⟩, ⟨_, h, true_ne_false⟩⟩

theorem OneDirection.mono (hcalls : OneDirection calls) (h : before ⊆ calls) : OneDirection before :=
  hcalls.imp (fun hread c hc => hread c (h hc)) fun hwrite c hc => hwrite c (h hc)

/-- Whether a history ends the connection depends on the calls with `TRUE` and `TRUE` only. -/
theorem afterCalls_of_open (hopen : s.closed = false) :
    afterCalls s calls = some { s with connected := s.connected && ! calls.contains (TRUE, TRUE) } := by
  induction calls generalizing s with
  | nil =>
    rw [List.contains_nil, Bool.not_false, Bool.and_true]
    rfl
  | cons c calls ih =>
    have hrest := ih (s := { s with connected := s.connected && c != (TRUE, TRUE) }) hopen
    rw [afterCalls, List.foldlM_cons, call_of_open hopen]
    refine hrest.trans ?_
    rw [List.contains_cons, Bool.not_or, ← Bool.and_assoc, bne, BEq.comm]

/-- No history closes the socket. -/
theorem isClosed_afterCalls (hopen : s.closed = false) :
    (afterCalls s calls).map pSocketIsClosed = some FALSE := by
  rw [afterCalls_of_open hopen, Option.map_some, pSocketIsClosed, hopen]
  rfl

theorem passesOn_afterCalls (hopen : s.closed = false) :
    (∃ s' o, afterCalls s calls = some s' ∧ call s' c = some o ∧ PassesOn s.fd c o.passed) ↔ Understood c := by
  have hcall := call_of_open (s := { s with connected := s.connected && ! calls.contains (TRUE, TRUE) })
      (c := c) hopen
  rw [← passesOn_iff s.fd c]
  constructor
  · rintro ⟨s', o, hs, ho, hpasses⟩
    obtain rfl := Option.some.inj ((afterCalls_of_open hopen).symm.trans hs)
    obtain rfl := Option.some.inj (hcall.symm.trans ho)
    exact hpasses
  · intro hpasses
    exact ⟨_, _, afterCalls_of_open hopen, hcall, hpasses⟩

theorem isConnected_afterCalls (hopen : s.closed = false) (hconnected : s.connected = true) :
    (afterCalls s calls).map pSocketIsConnected = some (if (TRUE, TRUE) ∈ calls then FALSE else TRUE) := by
  rw [afterCalls_of_open hopen, Option.map_some, pSocketIsConnected, hconnected, Bool.true_and]
  by_cases hmem : (TRUE, TRUE) ∈ calls <;> simp [hmem]

/-- Until there is a call with `TRUE` and `TRUE`, a history stays inside the part before the first one. -/
theorem prefix_takeWhile (hbefore : before <+: calls) (h : (TRUE, TRUE) ∉ before) :
    before <+: calls.takeWhile (· != (TRUE, TRUE)) := by
  obtain ⟨after, rfl⟩ := hbefore
  have hall : ∀ c ∈ before, (c != (TRUE, TRUE)) = true := by
    intro c hc
    exact bne_iff_ne.2 (ne_of_mem_of_not_mem hc h)
  rw [List.takeWhile_append_of_pos hall]
  exact List.prefix_append ..

/-- **Bookkeeping of shutdowns.**  It is right if and only if every call understands its arguments and
    the calls before the first one with `TRUE` and `TRUE` do not ask for both directions. -/
theorem pSocketShutdown_iff (hopen : s.closed = false) (hconnected : s.connected = true) (calls : List Call) :
    Bookkeeping s calls ↔
      (∀ c ∈ calls, Understood c) ∧ OneDirection (calls.takeWhile (· != (TRUE, TRUE))) := by
  constructor
  · rintro ⟨hpasses, hdisconnects, -⟩
    constructor
    · intro c hc
      obtain ⟨before, after, rfl⟩ := List.append_of_mem hc
      exact (passesOn_afterCalls hopen).1 (hpasses before c after rfl)
    · have hnot : (TRUE, TRUE) ∉ calls.takeWhile (· != (TRUE, TRUE)) := fun h =>
        bne_iff_ne.1 (List.mem_takeWhile_imp (p := (· != (TRUE, TRUE))) h) rfl
      by_contra hdirections
      have hfalse := hdisconnects _ (List.takeWhile_prefix _) (bothRequested_iff.2 hdirections)
      rw [isConnected_afterCalls hopen hconnected, if_neg hnot] at hfalse
      exact true_ne_false (Option.some.inj hfalse)
  · rintro ⟨hunderstood, hdirections⟩
    refine ⟨?_, ?_, ?_⟩
    · rintro before c after rfl
      exact (passesOn_afterCalls hopen).2 (hunderstood c (by simp))
    · intro before hbefore hboth
      have hmem : (TRUE, TRUE) ∈ before := by
        by_contra hnot
        exact bothRequested_iff.1 hboth (hdirections.mono (prefix_takeWhile hbefore hnot).subset)
      rw [isConnected_afterCalls hopen hconnected, if_pos hmem]
    · intro before hbefore hboth
      have hmem : (TRUE, TRUE) ∉ before := fun h => hboth (bothRequested_of_mem h)
      rw [isConnected_afterCalls hopen hconnected, if_neg hmem, pSocketIsConnected, if_pos hconnected]

/-- A connected socket with the descriptor 3. -/
def connectedSocket : PSocket := { PSocket.zero with fd := 3, connected := true }

/-- Reading first, then both at once. -/
theorem pSocketShutdown_at_once : Bookkeeping connectedSocket [(TRUE, FALSE), (TRUE, TRUE)] :=
  have hunderstood : ∀ c ∈ [(TRUE, FALSE), (TRUE, TRUE)], Understood c :=
    List.forall_mem_cons.2 ⟨.inr ⟨rfl, .inl rfl⟩, List.forall_mem_singleton.2 (.inr ⟨rfl, .inr rfl⟩)⟩
  have hdirection : OneDirection [(TRUE, FALSE)] := .inr (List.forall_mem_singleton.2 rfl)
  (pSocketShutdown_iff rfl rfl _).2 ⟨hunderstood, hdirection⟩

/-- Reading first, then writing: the socket still counts as connected.  And 2 asks for reading, but writing
    is shut down. -/
theorem pSocketShutdown_separately :
    ¬ Bookkeeping connectedSocket [(TRUE, FALSE), (FALSE, TRUE)] ∧ ¬ Bookkeeping connectedSocket [(2, FALSE)] := by
  constructor
  · intro h
    exact absurd (h.disconnects _ (List.prefix_refl _) (by decide)) (by decide)
  · intro h
    obtain ⟨s, o, hs, ho, hpasses⟩ := h.passes [] (2, FALSE) [] rfl
    cases hs
    cases ho
    exact absurd hpasses.1 (by decide)

end Plibsys.Net.Shutdown
