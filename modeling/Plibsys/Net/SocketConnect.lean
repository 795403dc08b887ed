/-
  What the sockets call while they wait (`p_socket_io_condition_wait`) and connect (`p_socket_connect`).
-/
import Plibsys.Net.SocketTransfer

namespace Plibsys.Net

open Programs Prog

/-! ## Waits -/

def Interrupted (a : pint × Errno) : Prop := a.1 = -1 ∧ a.2 = .EINTR

instance (a : pint × Errno) : Decidable (Interrupted a) := inferInstanceAs (Decidable (_ ∧ _))

section
variable (socket : PSocket) (condition : PSocketIOCondition) (sa : List UInt8)

/-- A call that is made until it is not interrupted, with its answers. -/
structure Insists (c : SysCall) (interrupted : c.Reply → Prop) (t : Exchanges SysCall.Reply) (a : c.Reply) :
    Prop where
  decides : ¬ interrupted a
  calls : ∃ u : List c.Reply, t = u.map (Sigma.mk c) ++ [⟨c, a⟩] ∧ ∀ a' ∈ u, interrupted a'

/-- **A wait**: the last poll decides. -/
def WaitTrace (t : Exchanges SysCall.Reply) (r : Except PError Unit) : Prop :=
  ∃ a, Insists (pollCall socket condition) Interrupted t a ∧ r = waited a

/-! ## Connections -/

/-- The connection is being made. -/
def UnderWay (e : Errno) : Prop := pErrorGetIoFromSystem e = .wouldBlock ∨ pErrorGetIoFromSystem e = .inProgress

instance (e : Errno) : Decidable (UnderWay e) := inferInstanceAs (Decidable (_ ∨ _))

/-- `connect ()` has failed, also with `EISCONN`, or the socket may not wait for the connection. -/
def connectError (e : Errno) : PError :=
  if UnderWay e then ⟨pErrorGetIoFromSystem e, e.code, "Couldn't block non-blocking socket"⟩
  else systemError e "Failed to call connect() on socket"

/-- A connection as `SO_ERROR` tells of it. -/
def statusResult : Except Errno (Option Errno) → Except PError Unit × PSocket
  | .error e => (.error (systemError e "Failed to call getsockopt() to get connection status"), socket)
  | .ok none => (.ok (), { socket with connected := true })
  | .ok (some e) => (.error (systemError e "Error in socket layer"), { socket with connected := false })

/-- The connection is waited for, and then asked for. -/
def StatusTrace (t : Exchanges SysCall.Reply) (r : Except PError Unit × PSocket) : Prop :=
  (∃ e, WaitTrace socket .POLLOUT t (.error e) ∧ r = (.error e, socket)) ∨
    ∃ t' b, t = t' ++ [⟨.getError socket.fd, b⟩] ∧ WaitTrace socket .POLLOUT t' (.ok ()) ∧
      r = statusResult socket b

/-- **A connection**: `connect ()` is called until it is not interrupted.  If the connection is then under
    way, a socket that blocks waits until it can be written to, and asks for its error. -/
def ConnectTrace (t : Exchanges SysCall.Reply) (r : Except PError Unit × PSocket) : Prop :=
  (Insists (.connect socket.fd sa) (· = .error .EINTR) t (.ok ()) ∧
  r = (.ok (), { socket with connected := true })) ∨
    ∃ t₁ t₂ e, t = t₁ ++ t₂ ∧ Insists (.connect socket.fd sa) (· = .error .EINTR) t₁ (.error e) ∧
      if UnderWay e ∧ socket.blocking then StatusTrace socket t₂ r else t₂ = [] ∧
        r = (.error (connectError e), socket)

/-- A closed socket makes no call. -/
def closedError : PError := ⟨.notAvailable, 0, "Socket is already closed"⟩

end

section
variable {socket : PSocket} {condition : PSocketIOCondition} {sa : List UInt8} {t : Exchanges SysCall.Reply}

/-- A call that is repeated while it is interrupted. -/
theorem traces_insist {α : Type} {c : SysCall} {interrupted : c.Reply → Prop} [DecidablePred interrupted]
    {f : c.Reply → α} {r : α} :
    Traces (fun fuel =>
      forever (Prog.perform c >>= fun a => pure (if interrupted a then none else some (f a))) fuel) t r ↔
      ∃ a, Insists c interrupted t a ∧ r = f a := by
  rw [traces_retry]
  constructor
  · rintro ⟨u, a, ht, hu, ha⟩
    by_cases hint : interrupted a
    · rw [if_pos hint] at ha
      cases ha
    · rw [if_neg hint] at ha
      refine ⟨a, ⟨hint, u, ht, fun a' ha' => ?_⟩, (Option.some.inj ha).symm⟩
      by_contra hnot
      have := hu a' ha'
      rw [if_neg hnot] at this
      cases this
  · rintro ⟨a, ⟨hint, u, ht, hu⟩, rfl⟩
    exact ⟨u, a, ht, fun a' ha' => if_pos (hu a' ha'), if_neg hint⟩

theorem wait_iff {r : Except PError Unit} (hopen : socket.closed = false) :
    Traces (fun fuel => pSocketIoConditionWait fuel socket condition) t r ↔ WaitTrace socket condition t r := by
  rw [wait_eq hopen]
  exact traces_insist (c := pollCall socket condition) (f := waited)

/-- The calls of `connect ()`. -/
theorem traces_connectLoop {r : Except Errno Unit} : Traces (fun fuel => connectLoop fuel socket sa) t r ↔
    Insists (.connect socket.fd sa) (· = .error .EINTR) t r := by
  have hloop : (fun fuel => connectLoop fuel socket sa) = fun fuel =>
      forever (Prog.perform (.connect socket.fd sa) >>= fun a : Except Errno Unit => pure
        (if a = .error .EINTR then none else some (id a))) fuel := by
    funext fuel
    refine congrArg (forever · fuel) (congrArg (Prog.perform _ >>= ·) (funext ?_))
    rintro (e | u)
    · dsimp only
      by_cases he : e = .EINTR
      · subst he
        rfl
      · rw [if_neg he, if_neg fun heq => he (Except.error.inj heq)]
        rfl
    · rfl
  rw [hloop]
  refine traces_insist.trans ?_
  constructor
  · rintro ⟨a, h, rfl⟩
    exact h
  · intro h
    exact ⟨r, h, rfl⟩

theorem steady_connectLoop : Steady fun fuel => connectLoop fuel socket sa := Steady.forever Steady.const

/-- The end of `p_socket_connect`, when the socket has been asked. -/
def confirm : Except PError Unit × PSocket → Except PError Unit × PSocket
  | (.error e, socket) => (.error e, socket)
  | (.ok (), socket) => (.ok (), { socket with connected := true })

theorem traces_status {r : Except PError Unit × PSocket} :
    Traces (fun _ => pSocketCheckConnectResult socket >>= fun r => pure (confirm r)) t r ↔
      ∃ b, t = [⟨.getError socket.fd, b⟩] ∧ r = statusResult socket b := by
  unfold pSocketCheckConnectResult perform
  simp only [bind_bind]
  rw [traces_perform_bind]
  constructor
  · rintro ⟨b, t', rfl, h⟩
    refine ⟨b, ?_⟩
    rcases b with e | _ | e
    · obtain ⟨rfl, rfl⟩ := traces_pure.1 h
      exact ⟨rfl, rfl⟩
    · obtain ⟨rfl, rfl⟩ := traces_pure.1 h
      exact ⟨rfl, rfl⟩
    · obtain ⟨rfl, rfl⟩ := traces_pure.1 h
      exact ⟨rfl, rfl⟩
  · rintro ⟨b, rfl, rfl⟩
    refine ⟨b, [], rfl, ?_⟩
    rcases b with e | _ | e
    · exact traces_pure.2 ⟨rfl, rfl⟩
    · exact traces_pure.2 ⟨rfl, rfl⟩
    · exact traces_pure.2 ⟨rfl, rfl⟩

/-- What follows a wait for the connection. -/
def afterReady (socket : PSocket) : Except PError Unit → SocketProg (Except PError Unit × PSocket)
  | .error e => pure (.error e, socket)
  | .ok () => pSocketCheckConnectResult socket >>= fun r => pure (confirm r)

/-- What follows the calls of `connect ()`. -/
def afterConnect (socket : PSocket) (fuel : ℕ) : Except Errno Unit → SocketProg (Except PError Unit × PSocket)
  | .ok () => pure (.ok (), { socket with connected := true })
  | .error e =>
    if UnderWay e ∧ socket.blocking then pSocketIoConditionWait fuel socket .POLLOUT >>= afterReady socket
    else pure (.error (connectError e), socket)

theorem pSocketConnect_eq {host : Bytes.ByteOrder} {fuel : ℕ} {address : PSocketAddress}
    (hopen : socket.closed = false) :
    pSocketConnect host fuel socket address =
      connectLoop fuel socket (layout host address) >>= afterConnect socket fuel := by
  have hcheck : ppSocketCheck socket = .ok () := by
    rw [ppSocketCheck, hopen]
    rfl
  unfold pSocketConnect
  rw [nativeAddress_eq, hcheck]
  refine congrArg (connectLoop fuel socket (layout host address) >>= ·) (funext ?_)
  rintro (e | u)
  · dsimp only [afterConnect, connectError]
    by_cases hway : UnderWay e
    · have hio : pErrorGetIoFromSystem e = .wouldBlock ∨ pErrorGetIoFromSystem e = .inProgress := hway
      cases hblocking : socket.blocking with
      | true =>
        simp only [hway, hio, if_true, and_self]
        refine congrArg (pSocketIoConditionWait fuel socket .POLLOUT >>= ·) (funext ?_)
        rintro (e | u)
        · rfl
        · refine congrArg (pSocketCheckConnectResult socket >>= ·) (funext ?_)
          rintro ⟨e | u, socket⟩ <;> rfl
      | false =>
        simp only [hway, hio, if_true, and_false, if_false, Bool.false_eq_true]
    · have hio : ¬ (pErrorGetIoFromSystem e = .wouldBlock ∨ pErrorGetIoFromSystem e = .inProgress) := hway
      simp only [hway, hio, if_false, false_and]
  · rfl

theorem steady_afterConnect (a : Except Errno Unit) : Steady fun fuel => afterConnect socket fuel a := by
  rcases a with e | u
  · by_cases hwait : UnderWay e ∧ socket.blocking
    · simp only [afterConnect, if_pos hwait]
      exact Steady.bind steady_wait fun ready => Steady.const
    · simp only [afterConnect, if_neg hwait]
      exact Steady.const
  · exact Steady.const

/-- The wait for a connection. -/
theorem traces_waitForConnection {r : Except PError Unit × PSocket} (hopen : socket.closed = false) :
    Traces (fun fuel => pSocketIoConditionWait fuel socket .POLLOUT >>= afterReady socket) t r ↔
      StatusTrace socket t r := by
  rw [traces_bind (f := fun _ => afterReady socket) steady_wait fun ready => Steady.const]
  simp only [wait_iff hopen]
  constructor
  · rintro ⟨t₁, t₂, e | u, rfl, h₁, h₂⟩
    · obtain ⟨rfl, rfl⟩ := traces_pure.1 h₂
      rw [List.append_nil]
      exact .inl ⟨e, h₁, rfl⟩
    · obtain ⟨b, rfl, rfl⟩ := traces_status.1 h₂
      exact .inr ⟨t₁, b, rfl, h₁, rfl⟩
  · rintro (⟨e, h₁, rfl⟩ | ⟨t₁, b, rfl, h₁, rfl⟩)
    · exact ⟨t, [], .error e, (List.append_nil t).symm, h₁, traces_pure.2 ⟨rfl, rfl⟩⟩
    · exact ⟨t₁, _, .ok (), rfl, h₁, traces_status.2 ⟨b, rfl, rfl⟩⟩

theorem connect_iff {host : Bytes.ByteOrder} {address : PSocketAddress} {r : Except PError Unit × PSocket}
    (hopen : socket.closed = false) : Traces (fun fuel => pSocketConnect host fuel socket address) t r ↔
      ConnectTrace socket (layout host address) t r := by
  have heq : (fun fuel => pSocketConnect host fuel socket address) = fun fuel =>
      connectLoop fuel socket (layout host address) >>= afterConnect socket fuel :=
        funext fun _ => pSocketConnect_eq hopen
  rw [heq, traces_bind steady_connectLoop steady_afterConnect]
  simp only [traces_connectLoop]
  constructor
  · rintro ⟨t₁, t₂, e | u, rfl, h₁, h₂⟩
    · refine .inr ⟨t₁, t₂, e, rfl, h₁, ?_⟩
      by_cases hwait : UnderWay e ∧ socket.blocking
      · simp only [afterConnect, if_pos hwait] at h₂ ⊢
        exact (traces_waitForConnection hopen).1 h₂
      · simp only [afterConnect, if_neg hwait] at h₂ ⊢
        obtain ⟨rfl, rfl⟩ := traces_pure.1 h₂
        exact ⟨rfl, rfl⟩
    · obtain ⟨rfl, rfl⟩ := traces_pure.1 h₂
      rw [List.append_nil]
      exact .inl ⟨h₁, rfl⟩
  · rintro (⟨h, rfl⟩ | ⟨t₁, t₂, e, rfl, h₁, h₂⟩)
    · exact ⟨t, [], .ok (), (List.append_nil t).symm, h, traces_pure.2 ⟨rfl, rfl⟩⟩
    · refine ⟨t₁, t₂, .error e, rfl, h₁, ?_⟩
      by_cases hwait : UnderWay e ∧ socket.blocking
      · simp only [afterConnect, if_pos hwait] at h₂ ⊢
        exact (traces_waitForConnection hopen).2 h₂
      · simp only [afterConnect, if_neg hwait] at h₂ ⊢
        obtain ⟨rfl, rfl⟩ := h₂
        exact traces_pure.2 ⟨rfl, rfl⟩

theorem Insists.getLast? {c : SysCall} {interrupted : c.Reply → Prop} {a : c.Reply} (h : Insists c interrupted t a)
    (t' : Exchanges SysCall.Reply) : (t' ++ t).getLast? = some ⟨c, a⟩ := by
  obtain ⟨u, rfl, -⟩ := h.calls
  rw [← List.append_assoc, List.getLast?_concat]

/-- A connection succeeds when the last answer says that it has been made. -/
theorem ConnectTrace.ok_iff {r : Except PError Unit × PSocket} (h : ConnectTrace socket sa t r) : r.1 = .ok () ↔
    t.getLast? = some ⟨.connect socket.fd sa, .ok ()⟩ ∨ t.getLast? = some ⟨.getError socket.fd, .ok none⟩ := by
  have hfails : ∀ {e : PError} {x : (c : SysCall) × c.Reply}, t.getLast? = some x → r.1 = .error e →
      x ≠ ⟨.connect socket.fd sa, .ok ()⟩ → x ≠ ⟨.getError socket.fd, .ok none⟩ → (r.1 = .ok () ↔
        t.getLast? = some ⟨.connect socket.fd sa, .ok ()⟩ ∨
          t.getLast? = some ⟨.getError socket.fd, .ok none⟩) := by
    intro e x hx hr h₁ h₂
    rw [hx, hr]
    constructor
    · intro hok
      cases hok
    · rintro (heq | heq)
      · exact absurd (Option.some.inj heq) h₁
      · exact absurd (Option.some.inj heq) h₂
  rcases h with ⟨h, rfl⟩ | ⟨t₁, t₂, e, rfl, h₁, h₂⟩
  · exact ⟨fun _ => .inl (h.getLast? []), fun _ => rfl⟩
  by_cases hwait : UnderWay e ∧ socket.blocking
  · rw [if_pos hwait] at h₂
    rcases h₂ with ⟨e', ⟨a, hpoll, -⟩, rfl⟩ | ⟨t', b, rfl, -, rfl⟩
    · refine hfails (hpoll.getLast? t₁) rfl ?_ ?_
      · intro heq
        cases heq
      · intro heq
        cases heq
    · have hlast : List.getLast? (t₁ ++ (t' ++ [⟨.getError socket.fd, b⟩] : Exchanges SysCall.Reply)) =
          some ⟨.getError socket.fd, b⟩ := by
        rw [← List.append_assoc, List.getLast?_concat]
      rcases b with e' | _ | e'
      · refine hfails hlast rfl ?_ ?_
        · intro heq
          cases heq
        · intro heq
          cases heq
      · exact ⟨fun _ => .inr hlast, fun _ => rfl⟩
      · refine hfails hlast rfl ?_ ?_
        · intro heq
          cases heq
        · intro heq
          cases heq
  · rw [if_neg hwait] at h₂
    obtain ⟨rfl, rfl⟩ := h₂
    refine hfails ((congrArg List.getLast? (List.append_nil t₁)).trans (h₁.getLast? [])) rfl ?_ ?_
    · intro heq
      cases heq
    · intro heq
      cases heq

/-- A connection that succeeds is marked, and nothing else of the socket is changed. -/
theorem ConnectTrace.marks {r : Except PError Unit × PSocket} (h : ConnectTrace socket sa t r) :
    r.2 = { socket with connected := r.2.connected } ∧ (r.1 = .ok () → r.2.connected = true) := by
  rcases h with ⟨h, rfl⟩ | ⟨t₁, t₂, e, rfl, h₁, h₂⟩
  · exact ⟨rfl, fun _ => rfl⟩
  by_cases hwait : UnderWay e ∧ socket.blocking
  · rw [if_pos hwait] at h₂
    rcases h₂ with ⟨e', -, rfl⟩ | ⟨t', b, rfl, -, rfl⟩
    · exact ⟨rfl, fun hok => by cases hok⟩
    · rcases b with e' | _ | e'
      · exact ⟨rfl, fun hok => by cases hok⟩
      · exact ⟨rfl, fun _ => rfl⟩
      · exact ⟨rfl, fun hok => by cases hok⟩
  · rw [if_neg hwait] at h₂
    obtain ⟨rfl, rfl⟩ := h₂
    exact ⟨rfl, fun hok => by cases hok⟩

end

/-- **Waiting and connecting.**  Whatever the system answers, a call of `p_socket_io_condition_wait` or
    `p_socket_connect` makes the calls of a wait, or of a connection, and each run of these is one of the
    function.  It succeeds if and only if `connect ()` returns 0 in the end, or `SO_ERROR` has no error to
    tell, and then marks the socket.  An interrupted connection may be made all the same; the next
    `connect ()` is then answered with `EISCONN`, which counts as a failure. -/
theorem pSocket_connects (host : Bytes.ByteOrder) (socket : PSocket) :
    (∀ condition t r, Traces (fun fuel => pSocketIoConditionWait fuel socket condition) t r ↔
      if socket.closed then t = [] ∧ r = .error closedError else WaitTrace socket condition t r) ∧
    ∀ address t r, (Traces (fun fuel => pSocketConnect host fuel socket address) t r ↔
      if socket.closed then t = [] ∧ r = (.error closedError, socket)
      else ConnectTrace socket (layout host address) t r) ∧
      (ConnectTrace socket (layout host address) t r → (r.1 = .ok () ↔
          t.getLast? = some ⟨.connect socket.fd (layout host address), .ok ()⟩ ∨
          t.getLast? = some ⟨.getError socket.fd, .ok none⟩) ∧
        r.2 = { socket with connected := r.2.connected } ∧ (r.1 = .ok () → r.2.connected = true)) := by
  constructor
  · intro condition t r
    cases hclosed : socket.closed with
    | true =>
      have hcheck : ppSocketCheck socket = .error closedError := by
        rw [ppSocketCheck, hclosed]
        rfl
      unfold pSocketIoConditionWait
      rw [hcheck, if_pos rfl, and_comm, @eq_comm _ r]
      exact traces_pure
    | false =>
      rw [wait_iff hclosed, if_neg Bool.false_ne_true]
  · intro address t r
    refine ⟨?_, fun h => ⟨h.ok_iff, h.marks⟩⟩
    cases hclosed : socket.closed with
    | true =>
      have hcheck : ppSocketCheck socket = .error closedError := by
        rw [ppSocketCheck, hclosed]
        rfl
      unfold pSocketConnect
      rw [hcheck, if_pos rfl, and_comm, @eq_comm _ r]
      exact traces_pure
    | false =>
      rw [connect_iff hclosed, if_neg Bool.false_ne_true]

example : connectError .EISCONN = ⟨.connected, 106, "Failed to call connect() on socket"⟩ := by decide

end Plibsys.Net
