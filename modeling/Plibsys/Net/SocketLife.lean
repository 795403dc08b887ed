/-
  What each function of the sockets does to the open descriptors of the process.
-/
import Mathlib.Data.Finset.Insert
import Plibsys.Net.SocketTransfer

namespace Plibsys.Net

open Programs Prog

/-! ## Descriptors -/

/-- The open descriptors of the process, and those that `close ()` has failed for, and left open. -/
structure Kernel where
  descriptors : Finset pint
  failed : Finset pint
  deriving DecidableEq

/-- A new descriptor is not negative, and it is not an open one. -/
structure Kernel.Opens (k : Kernel) (fd : pint) (k' : Kernel) : Prop where
  nonneg : 0 ≤ fd
  fresh : fd ∉ k.descriptors
  eq : k' = ⟨insert fd k.descriptors, k.failed.erase fd⟩

/-- A failing `close ()` releases the descriptor, as on Linux, or leaves it open. -/
inductive Kernel.FailsToClose (k : Kernel) (fd : pint) : Kernel → Prop where
  | released : k.FailsToClose fd ⟨k.descriptors.erase fd, k.failed⟩
  | left : k.FailsToClose fd ⟨k.descriptors, insert fd k.failed⟩

/-- What the sockets use of the system. -/
def law : (c : SysCall) → Kernel → c.Reply → Kernel → Prop
  | .socket .., k, .ok fd, k' => k.Opens fd k'
  | .transfer _ .accept, k, .ok r, k' => k.Opens r.ret.toInt32 k'
  | .close fd, k, .ok (), k' => fd ∈ k.descriptors ∧ k' = ⟨k.descriptors.erase fd, k.failed⟩
  | .close fd, k, .error _, k' => k.FailsToClose fd k'
  | .getError fd, k, .ok _, k' => fd ∈ k.descriptors ∧ k' = k
  | _, k, _, k' => k' = k

variable {host : Bytes.ByteOrder} {fuel : ℕ} {socket : PSocket} {k : Kernel}

/-! ## One call of the library -/

theorem law_transfer {x : Transfer} {k' : Kernel} {fd : pint} {r : Except Errno Transferred}
    (h : law (.transfer fd x) k r k')
    (hx : x ≠ .accept ∨ ∃ e, r = .error e) : k' = k := by
  cases x <;> rcases r with e | r <;> first | exact h | simp at hx

/-- The program changes no descriptors, and `Q` holds of its result. -/
def Neutral {α : Type} (p : SocketProg α) (k : Kernel) (Q : α → Prop) : Prop :=
  Safe law p k fun a k' => k' = k ∧ Q a

namespace Neutral

variable {α β : Type} {p : SocketProg α} {f : α → SocketProg β} {c : SysCall} {a : α} {Q : α → Prop} {R : β → Prop}

theorem pure (h : Q a) : Neutral (Pure.pure a) k Q := ⟨rfl, h⟩

theorem bind (hp : Neutral p k Q) (hf : ∀ a, Q a → Neutral (f a) k R) : Neutral (p >>= f) k R := by
  refine Safe.bind hp ?_
  rintro a k' ⟨rfl, ha⟩
  exact hf a ha

theorem perform {f : c.Reply → SocketProg α} (hc : ∀ r k', law c k r k' → k' = k)
    (hf : ∀ r, Neutral (f r) k Q) : Neutral (Net.perform c >>= f) k Q := by
  refine Safe.perform fun r k' hlaw => ?_
  rw [hc r k' hlaw]
  exact hf r

theorem call (hc : ∀ r k', law c k r k' → k' = k) : Neutral (Net.perform c) k fun _ => True :=
  fun r k' h => ⟨hc r k' h, trivial⟩

theorem forever {body : SocketProg (Option α)} (hbody : Neutral body k fun r => ∀ a, r = some a → Q a) :
    Neutral (forever body fuel) k Q := by
  refine Safe.forever (I := (· = k)) ?_ rfl
  rintro _ rfl
  refine Safe.mono hbody ?_
  rintro (_ | a) k' ⟨hk, ha⟩
  · exact hk
  · exact ⟨hk, ha a rfl⟩

end Neutral

theorem neutral_setFdBlocking (fd : pint) (blocking : Bool) :
    Neutral (ppSocketSetFdBlocking fd blocking) k fun _ => True := by
  refine .perform (fun r k' h => h) fun arg => .perform (fun r k' h => h) fun r => ?_
  rcases r with e | r
  · exact .pure trivial
  · exact .pure trivial

theorem neutral_setCloexec (fd : pint) : Neutral (setCloexec fd) k fun _ => True := by
  refine .perform (fun r k' h => h) fun r => ?_
  rcases r with e | flags
  · exact .pure trivial
  · dsimp only
    split_ifs
    · exact .perform (fun r k' h => h) fun r => .pure trivial
    · exact .pure trivial

/-- What the details of a descriptor leave of a socket. -/
def SameLife (socket s : PSocket) : Prop := s.fd = socket.fd ∧ s.closed = socket.closed

theorem SameLife.trans {s₁ s₂ : PSocket} (h₁ : SameLife socket s₁) (h₂ : SameLife s₁ s₂) : SameLife socket s₂ :=
  ⟨h₂.1.trans h₁.1, h₂.2.trans h₁.2⟩

theorem neutral_setConnected (socket : PSocket) : Neutral (setConnected socket) k (SameLife socket) := by
  unfold setConnected
  split_ifs
  · exact .pure ⟨rfl, rfl⟩
  · refine .perform (fun r k' h => h) fun r => ?_
    rcases r with e | r
    · exact .pure ⟨rfl, rfl⟩
    · exact .pure ⟨rfl, rfl⟩

theorem neutral_setKeepalive (socket : PSocket) : Neutral (setKeepalive socket) k (SameLife socket) := by
  refine .perform (fun r k' h => h) fun r => ?_
  rcases r with e | value
  · exact .pure ⟨rfl, rfl⟩
  · exact .pure ⟨rfl, rfl⟩

theorem neutral_setDetails (socket : PSocket) : Neutral (ppSocketSetDetailsFromFd host socket) k fun r =>
    ∀ s, r = .ok s → SameLife socket s := by
  have hfailed : ∀ e : PError, Neutral (pure (.error e)) k fun r : Except PError PSocket =>
      ∀ s, r = .ok s → SameLife socket s := fun e => .pure fun s hs => by cases hs
  unfold ppSocketSetDetailsFromFd
  refine .perform (fun r k' h => h) fun r => ?_
  rcases r with e | ⟨value, optlen⟩
  · exact hfailed _
  · dsimp only
    split_ifs
    · exact hfailed _
    · refine .perform (fun r k' h => h) fun r => ?_
      rcases r with e | ⟨address, addrlen⟩
      · exact hfailed _
      · refine .bind (Q := fun _ => True) ?_ fun domain _ => ?_
        · split_ifs
          · exact .pure trivial
          · exact .call fun r k' h => h
        · rcases domain with e | u
          · exact hfailed _
          · refine .bind (neutral_setConnected _) fun s₁ h₁ => .bind (neutral_setKeepalive _) fun s₂ h₂ => ?_
            refine .pure fun s hs => ?_
            obtain rfl := Except.ok.inj hs
            refine SameLife.trans ?_ (h₁.trans h₂)
            split_ifs
            · exact ⟨rfl, rfl⟩
            · exact ⟨rfl, rfl⟩

theorem neutral_newFromFd (fd : pint) : Neutral (pSocketNewFromFd host fd) k fun r =>
    ∀ s, r = .ok s → s.fd = fd ∧ s.closed = false := by
  have hfailed : ∀ e : PError, Neutral (pure (.error e)) k fun r : Except PError PSocket =>
      ∀ s, r = .ok s → s.fd = fd ∧ s.closed = false := fun e => .pure fun s hs => by cases hs
  unfold pSocketNewFromFd
  split_ifs
  · exact hfailed _
  · refine .perform (fun r k' h => h) fun r => ?_
    dsimp only
    split_ifs
    · exact hfailed _
    · refine .bind (neutral_setDetails _) fun r hr => ?_
      rcases r with e | socket
      · exact hfailed _
      · refine .bind (neutral_setFdBlocking _ _) fun r _ => ?_
        rcases r with e | r
        · exact hfailed _
        · refine .pure fun s hs => ?_
          obtain rfl := Except.ok.inj hs
          obtain ⟨hfd, hclosed⟩ := hr socket rfl
          unfold pSocketSetListenBacklog
          split_ifs
          · exact ⟨hfd, hclosed⟩
          · exact ⟨hfd, hclosed⟩

/-! ## Opening and closing -/

/-- The descriptors of `k` are still open, and `new` is; a further one has failed to close. -/
structure Kernel.Gains (k : Kernel) (new : Option pint) (k' : Kernel) : Prop where
  kept : ∀ fd ∈ k.descriptors, fd ∈ k'.descriptors ∧ (fd ∈ k.failed → fd ∈ k'.failed)
  new_open : ∀ fd ∈ new, fd ∈ k'.descriptors ∧ fd ∉ k.descriptors
  accounted : ∀ fd ∈ k'.descriptors, fd ∈ k.descriptors ∨ 0 ≤ fd ∧ (fd ∈ k'.failed ∨ fd ∈ new)

theorem Kernel.Gains.refl (k : Kernel) : k.Gains none k :=
  ⟨fun _ h => ⟨h, id⟩, fun _ h => (by cases h), fun _ h => .inl h⟩

theorem Kernel.Opens.gains {k' : Kernel} {fd : pint} (h : k.Opens fd k') : k.Gains (some fd) k' := by
  obtain ⟨hnonneg, hfresh, rfl⟩ := h
  refine ⟨fun fd' hfd' => ⟨Finset.mem_insert_of_mem hfd', fun hfailed => ?_⟩, ?_, fun fd' hfd' => ?_⟩
  · refine Finset.mem_erase.2 ⟨?_, hfailed⟩
    rintro rfl
    exact hfresh hfd'
  · rintro _ ⟨⟩
    exact ⟨Finset.mem_insert_self fd _, hfresh⟩
  · rcases Finset.mem_insert.1 hfd' with rfl | hfd'
    · exact .inr ⟨hnonneg, .inr rfl⟩
    · exact .inl hfd'

/-- A new descriptor is closed at once, or `close ()` fails for it. -/
theorem Kernel.Opens.gains_close {k' k'' : Kernel} {fd : pint} {r : Except Errno Unit} (h : k.Opens fd k')
    (hclose : law (.close fd) k' r k'') : k.Gains none k'' := by
  obtain ⟨hnonneg, hfresh, rfl⟩ := h
  have hfailed : ∀ fd' ∈ k.descriptors, fd' ∈ k.failed → fd' ∈ k.failed.erase fd := by
    intro fd' hfd' hfailed
    refine Finset.mem_erase.2 ⟨?_, hfailed⟩
    rintro rfl
    exact hfresh hfd'
  have herased : k.Gains none ⟨(insert fd k.descriptors).erase fd, k.failed.erase fd⟩ := by
    rw [Finset.erase_insert hfresh]
    exact ⟨fun fd' hfd' => ⟨hfd', hfailed fd' hfd'⟩, fun _ h => (by cases h), fun _ h => .inl h⟩
  rcases r with e | u
  · cases hclose with
    | released => exact herased
    | left =>
      refine ⟨fun fd' hfd' => ⟨Finset.mem_insert_of_mem hfd', fun h => ?_⟩, fun _ h => (by cases h),
        fun fd' hfd' => ?_⟩
      · exact Finset.mem_insert_of_mem (hfailed fd' hfd' h)
      · rcases Finset.mem_insert.1 hfd' with rfl | hfd'
        · exact .inr ⟨hnonneg, .inl (Finset.mem_insert_self _ _)⟩
        · exact .inl hfd'
  · obtain ⟨-, rfl⟩ := hclose
    exact herased

/-- `p_socket_close`: the socket was closed, it is closed now, or `close ()` has failed; then the socket keeps the
    descriptor, also if it is released. -/
inductive Closing (socket : PSocket) (k : Kernel) : PSocket → Kernel → Prop where
  | already : socket.closed = true → Closing socket k socket k
  | done : socket.closed = false → Closing socket k
      { socket with connected := false, closed := true, listening := false, fd := -1 }
      ⟨k.descriptors.erase socket.fd, k.failed⟩
  | failed {k'} : socket.closed = false → k.FailsToClose socket.fd k' → Closing socket k socket k'

theorem safe_close (socket : PSocket) :
    Safe law (pSocketClose socket) k fun r k' => Closing socket k r.2 k' ∧ (r.1 = .ok () → r.2.closed) := by
  unfold pSocketClose
  by_cases hclosed : socket.closed = true
  · rw [if_pos hclosed]
    exact Safe.pure ⟨.already hclosed, fun _ => hclosed⟩
  · rw [if_neg hclosed]
    have hopen : socket.closed = false := Bool.eq_false_of_not_eq_true hclosed
    refine Safe.perform fun r k' hlaw => ?_
    rcases r with e | u
    · exact Safe.pure ⟨.failed hopen hlaw, fun h => by cases h⟩
    · obtain ⟨-, rfl⟩ := hlaw
      exact Safe.pure ⟨.done hopen, fun _ => rfl⟩

theorem safe_free (hopen : socket.closed = false) :
    Safe law (pSocketFree socket) k fun _ k' => ∃ r, law (.close socket.fd) k r k' := by
  unfold pSocketFree pSocketClose
  rw [if_neg (by rw [hopen]; decide)]
  refine Safe.bind (Q := fun _ k' => ∃ r, law (.close socket.fd) k r k') ?_ fun _ k' h => Safe.pure h
  refine Safe.perform fun r k' hlaw => ?_
  rcases r with e | u
  · exact Safe.pure ⟨_, hlaw⟩
  · exact Safe.pure ⟨_, hlaw⟩

/-- Why a socket is not to be used any more: when `close ()` fails and releases the descriptor, the socket
    keeps it, and `p_socket_free` closes what has the number by then. -/
theorem runs_free_again {k' : Kernel} (hopen : socket.closed = false) (hreused : socket.fd ∈ k'.descriptors)
    (e : Errno) :
    (∃ e', Runs law (pSocketClose socket) k (.error e', socket) ⟨k.descriptors.erase socket.fd, k.failed⟩) ∧
      Runs law (pSocketFree socket) k' () ⟨k'.descriptors.erase socket.fd, k'.failed⟩ := by
  unfold pSocketFree pSocketClose
  rw [if_neg (by rw [hopen]; decide)]
  constructor
  · refine ⟨_, .call (SysCall.close socket.fd) _ (Except.error e) _ _ _ _ ?_ (.ret _ _)⟩
    exact Kernel.FailsToClose.released
  · refine .call (SysCall.close socket.fd) _ (Except.ok ()) _ _ _ _ ?_ (.ret _ _)
    exact And.intro hreused rfl

theorem safe_new (family : PSocketFamily) (type : PSocketType) (protocol : PSocketProtocol) :
    Safe law (pSocketNew family type protocol) k fun r k' =>
      k.Gains (r.toOption.map PSocket.fd) k' ∧ ∀ s, r = .ok s → s.closed = false := by
  have hfailed : ∀ e : PError, ∀ k', k.Gains none k' →
      Safe law (pure (.error e)) k' fun r : Except PError PSocket =>
      fun k' => k.Gains (r.toOption.map PSocket.fd) k' ∧ ∀ s, r = .ok s → s.closed = false :=
    fun e k' h => Safe.pure ⟨h, fun s hs => by cases hs⟩
  unfold pSocketNew
  split_ifs
  · exact hfailed _ k (.refl k)
  · refine Safe.perform fun r k' hlaw => ?_
    obtain rfl : k = k' := hlaw.symm
    dsimp only
    split_ifs
    · exact hfailed _ k (.refl k)
    · refine Safe.perform fun r k' hlaw => ?_
      rcases r with e | fd
      · obtain rfl : k = k' := hlaw.symm
        exact hfailed _ k (.refl k)
      · have hopens : k.Opens fd k' := hlaw
        refine Safe.bind (neutral_setCloexec fd) ?_
        rintro _ _ ⟨rfl, -⟩
        refine Safe.bind (neutral_setFdBlocking _ _) ?_
        rintro (e | u) _ ⟨rfl, -⟩
        · refine Safe.bind (safe_free rfl) ?_
          rintro _ k'' ⟨r, hclose⟩
          exact hfailed e k'' (hopens.gains_close hclose)
        · refine Safe.pure ⟨hopens.gains, fun s hs => ?_⟩
          obtain rfl := Except.ok.inj hs
          rfl

/-! ## Waiting and transferring -/

theorem neutral_wait (condition : PSocketIOCondition) :
    Neutral (pSocketIoConditionWait fuel socket condition) k fun _ => True := by
  unfold pSocketIoConditionWait
  rcases ppSocketCheck socket with e | u
  · exact .pure trivial
  · refine .forever (.perform (fun r k' h => h) ?_)
    rintro ⟨evret, errno⟩
    dsimp only
    split_ifs <;> exact .pure fun _ _ => trivial

/-- A loop leaves the descriptors as its last transfer does. -/
theorem safe_transferLoop (condition : PSocketIOCondition) (x : Transfer) (message : String) :
    Safe law (transferLoop fuel socket condition x message) k fun r k' => match r with
      | .error _ => k' = k
      | .ok r => law (.transfer socket.fd x) k (.ok r) k' := by
  unfold transferLoop
  rcases ppSocketCheck socket with e | u
  · exact Safe.pure rfl
  · refine Safe.forever (I := (· = k)) ?_ rfl
    intro k' hk
    obtain rfl : k = k' := hk.symm
    refine Safe.bind (Q := fun _ k' => k' = k) ?_ ?_
    · split_ifs
      · exact Safe.mono (neutral_wait condition) fun _ _ h => h.1
      · exact Safe.pure rfl
    · intro ready k' hk
      obtain rfl : k = k' := hk.symm
      rcases ready with e | u
      · exact Safe.pure rfl
      · refine Safe.perform fun r k' hlaw => ?_
        rcases r with e | r
        · obtain rfl := law_transfer hlaw (.inr ⟨e, rfl⟩)
          dsimp only
          split_ifs <;> exact Safe.pure rfl
        · exact Safe.pure hlaw

theorem safe_accept : Safe law (pSocketAccept host fuel socket) k fun r k' =>
    k.Gains (r.toOption.map PSocket.fd) k' ∧ ∀ s, r = .ok s → s.closed = false := by
  unfold pSocketAccept
  refine Safe.bind (safe_transferLoop _ _ _) ?_
  rintro (e | r) k' h
  · obtain rfl : k = k' := h.symm
    exact Safe.pure ⟨.refl k, fun s hs => by cases hs⟩
  · have hopens : k.Opens r.ret.toInt32 k' := h
    refine Safe.bind (neutral_setCloexec _) ?_
    rintro _ _ ⟨rfl, -⟩
    refine Safe.bind (neutral_newFromFd _) ?_
    rintro (e | s) _ ⟨rfl, hs⟩
    · refine Safe.perform fun r k'' hclose => ?_
      exact Safe.pure ⟨hopens.gains_close hclose, fun s hs => by cases hs⟩
    · obtain ⟨hfd, hopen⟩ := hs s rfl
      refine Safe.pure ⟨?_, fun s' hs' => ?_⟩
      · have hgains := hopens.gains
        rw [← hfd] at hgains
        exact hgains
      · obtain rfl := Except.ok.inj hs'
        exact hopen

/-! ## The other functions -/

/-- The functions that a socket in use may be given to. -/
inductive SocketOp where
  | setKeepalive (keepalive : Bool)
  | setBlocking (blocking : Bool)
  | setListenBacklog (backlog : pint)
  | setTimeout (timeout : pint)
  | checkConnectResult
  | bind (address : PSocketAddress) (allow_reuse : Bool)
  | connect (address : PSocketAddress)
  | listen
  | receive (buffer : ppointer) (buflen : psize)
  | receiveFrom (buffer : ppointer) (buflen : psize)
  | send (buffer : ppointer) (buflen : psize)
  | sendTo (address : PSocketAddress) (buffer : ppointer) (buflen : psize)
  | shutdown (shutdown_read shutdown_write : pboolean)
  | setBufferSize (rcv : Bool) (size : psize)
  | ioConditionWait (condition : PSocketIOCondition)
  | getLocalAddress
  | getRemoteAddress

/-- A function that does not change the socket. -/
def unchanged {α : Type} (socket : PSocket) (p : SocketProg α) : SocketProg PSocket := do
  let _ ← p
  return socket

/-- The socket after the call; the result is not kept. -/
def SocketOp.prog (host : Bytes.ByteOrder) (fuel : ℕ) (socket : PSocket) : SocketOp → SocketProg PSocket
  | .setKeepalive keepalive => pSocketSetKeepalive socket keepalive
  | .setBlocking blocking => return pSocketSetBlocking socket blocking
  | .setListenBacklog backlog => return pSocketSetListenBacklog socket backlog
  | .setTimeout timeout => return pSocketSetTimeout socket timeout
  | .checkConnectResult => return (← pSocketCheckConnectResult socket).2
  | .bind address allow_reuse => unchanged socket (pSocketBind host socket address allow_reuse)
  | .connect address => return (← pSocketConnect host fuel socket address).2
  | .listen => return (← pSocketListen socket).2
  | .receive buffer buflen => unchanged socket (pSocketReceive fuel socket buffer buflen)
  | .receiveFrom buffer buflen => unchanged socket (pSocketReceiveFrom host fuel socket buffer buflen)
  | .send buffer buflen => unchanged socket (pSocketSend fuel socket buffer buflen)
  | .sendTo address buffer buflen => unchanged socket (pSocketSendTo host fuel socket address buffer buflen)
  | .shutdown shutdown_read shutdown_write => return (← pSocketShutdown socket shutdown_read shutdown_write).2
  | .setBufferSize rcv size => unchanged socket (pSocketSetBufferSize socket rcv size)
  | .ioConditionWait condition => unchanged socket (pSocketIoConditionWait fuel socket condition)
  | .getLocalAddress => unchanged socket (pSocketGetLocalAddress host socket)
  | .getRemoteAddress => unchanged socket (pSocketGetRemoteAddress host socket)

/-- A closed socket has no descriptor, and it is neither connected nor listening. -/
def Settled (s : PSocket) : Prop := s.closed = true → s.fd = -1 ∧ s.connected = false ∧ s.listening = false

/-- The socket is in the same place of its life, and settled if it was. -/
def Kept (socket s : PSocket) : Prop := SameLife socket s ∧ (Settled socket → Settled s)

theorem Kept.refl (socket : PSocket) : Kept socket socket := ⟨⟨rfl, rfl⟩, id⟩

theorem Kept.of_open {s : PSocket} (hopen : socket.closed = false) (h : SameLife socket s) : Kept socket s := by
  refine ⟨h, fun _ hclosed => ?_⟩
  rw [h.2, hopen] at hclosed
  cases hclosed

theorem neutral_unchanged {α : Type} {p : SocketProg α} (hp : Neutral p k fun _ => True) :
    Neutral (unchanged socket p) k (Kept socket) :=
  .bind hp fun _ _ => .pure (.refl socket)

theorem neutral_setKeepaliveOption (keepalive : Bool) :
    Neutral (pSocketSetKeepalive socket keepalive) k (Kept socket) := by
  unfold pSocketSetKeepalive
  by_cases hsame : socket.keepalive = keepalive
  · rw [if_pos hsame]
    exact .pure (.refl socket)
  · rw [if_neg hsame]
    refine .perform (fun r k' h => h) fun r => ?_
    rcases r with e | u
    · exact .pure (.refl socket)
    · exact .pure ⟨⟨rfl, rfl⟩, id⟩

theorem neutral_checkConnectResult (hsettled : Settled socket) (hk : -1 ∉ k.descriptors) :
    Neutral (pSocketCheckConnectResult socket) k fun r => Kept socket r.2 := by
  refine Safe.perform fun r k' hlaw => ?_
  rcases r with e | r
  · obtain rfl : k = k' := hlaw.symm
    exact Neutral.pure (.refl socket)
  · obtain ⟨hfd, hk'⟩ := hlaw
    obtain rfl : k = k' := hk'.symm
    have hopen : socket.closed = false := by
      by_contra hclosed
      obtain ⟨hneg, -⟩ := hsettled (Bool.eq_true_of_not_eq_false hclosed)
      rw [hneg] at hfd
      exact hk hfd
    rcases r with _ | e
    · exact Neutral.pure (.of_open hopen ⟨rfl, rfl⟩)
    · exact Neutral.pure (.of_open hopen ⟨rfl, rfl⟩)

theorem neutral_connect (address : PSocketAddress) (hsettled : Settled socket) (hk : -1 ∉ k.descriptors) :
    Neutral (pSocketConnect host fuel socket address) k fun r => Kept socket r.2 := by
  unfold pSocketConnect
  rw [nativeAddress_eq]
  cases hclosed : socket.closed with
  | true =>
    simp only [ppSocketCheck, hclosed]
    exact .pure (.refl socket)
  | false =>
    simp only [ppSocketCheck, hclosed]
    refine .bind (Q := fun _ => True) ?_ fun r _ => ?_
    · refine .forever (.perform (fun r k' h => h) fun r => ?_)
      rcases r with e | u
      · dsimp only
        split_ifs <;> exact .pure fun _ _ => trivial
      · exact .pure fun _ _ => trivial
    · rcases r with e | u
      · dsimp only
        split_ifs
        · refine .bind (neutral_wait _) fun r _ => ?_
          rcases r with e | u
          · exact .pure (.refl socket)
          · refine .bind (neutral_checkConnectResult hsettled hk) ?_
            rintro ⟨e | u, s⟩ hs
            · exact .pure hs
            · exact .pure (.of_open hclosed ⟨hs.1.1, hs.1.2⟩)
        · exact .pure (.refl socket)
        · exact .pure (.refl socket)
      · exact .pure (.of_open hclosed ⟨rfl, hclosed.symm⟩)

theorem neutral_listen : Neutral (pSocketListen socket) k fun r => Kept socket r.2 := by
  unfold pSocketListen
  cases hclosed : socket.closed with
  | true =>
    simp only [ppSocketCheck, hclosed]
    exact .pure (.refl socket)
  | false =>
    simp only [ppSocketCheck, hclosed]
    refine .perform (fun r k' h => h) fun r => ?_
    rcases r with e | u
    · exact .pure (.refl socket)
    · exact .pure (.of_open hclosed ⟨rfl, hclosed.symm⟩)

theorem neutral_shutdown (shutdown_read shutdown_write : pboolean) :
    Neutral (pSocketShutdown socket shutdown_read shutdown_write) k fun r => Kept socket r.2 := by
  unfold pSocketShutdown
  cases hclosed : socket.closed with
  | true =>
    simp only [ppSocketCheck, hclosed]
    exact .pure (.refl socket)
  | false =>
    simp only [ppSocketCheck, hclosed]
    by_cases hnone : shutdown_read = FALSE ∧ shutdown_write = FALSE
    · rw [if_pos hnone]
      exact .pure (.refl socket)
    · rw [if_neg hnone]
      refine .perform (fun r k' h => h) fun r => ?_
      rcases r with e | u
      · exact .pure (.refl socket)
      · dsimp only
        split_ifs
        · exact .pure (.of_open hclosed ⟨rfl, hclosed.symm⟩)
        · exact .pure (.refl socket)

theorem neutral_bind (address : PSocketAddress) (allow_reuse : Bool) :
    Neutral (pSocketBind host socket address allow_reuse) k fun _ => True := by
  unfold pSocketBind
  rw [nativeAddress_eq]
  rcases ppSocketCheck socket with e | u
  · exact .pure trivial
  · refine .perform (fun r k' h => h) fun r => .perform (fun r k' h => h) fun r =>
      .perform (fun r k' h => h) fun r => ?_
    rcases r with e | u
    · exact .pure trivial
    · exact .pure trivial

theorem neutral_setBufferSize (rcv : Bool) (size : psize) :
    Neutral (pSocketSetBufferSize socket rcv size) k fun _ => True := by
  unfold pSocketSetBufferSize
  rcases ppSocketCheck socket with e | u
  · exact .pure trivial
  · refine .perform (fun r k' h => h) fun r => ?_
    rcases r with e | u
    · exact .pure trivial
    · exact .pure trivial

theorem neutral_transferLoop (condition : PSocketIOCondition) {x : Transfer} (message : String)
    (hx : x ≠ .accept) :
    Neutral (transferLoop fuel socket condition x message) k fun _ => True := by
  refine Safe.mono (safe_transferLoop condition x message) ?_
  rintro (e | r) k' h
  · exact ⟨h, trivial⟩
  · exact ⟨law_transfer h (.inl hx), trivial⟩

/-- **A call on a socket changes no descriptors**, and keeps the place of the socket in its life. -/
theorem neutral_op (op : SocketOp) (hsettled : Settled socket) (hk : -1 ∉ k.descriptors) :
    Neutral (op.prog host fuel socket) k (Kept socket) := by
  cases op with
  | setKeepalive keepalive => exact neutral_setKeepaliveOption keepalive
  | setBlocking blocking => exact .pure ⟨⟨rfl, rfl⟩, id⟩
  | setListenBacklog backlog =>
    refine .pure ?_
    unfold pSocketSetListenBacklog
    split_ifs
    · exact .refl socket
    · exact ⟨⟨rfl, rfl⟩, id⟩
  | setTimeout timeout => exact .pure ⟨⟨rfl, rfl⟩, id⟩
  | checkConnectResult => exact .bind (neutral_checkConnectResult hsettled hk) fun r hr => .pure hr
  | bind address allow_reuse => exact neutral_unchanged (neutral_bind address allow_reuse)
  | connect address => exact .bind (neutral_connect address hsettled hk) fun r hr => .pure hr
  | listen => exact .bind neutral_listen fun r hr => .pure hr
  | receive buffer buflen =>
    refine neutral_unchanged ?_
    unfold pSocketReceive
    split_ifs
    · exact .pure trivial
    · refine .bind (neutral_transferLoop _ _ (by simp)) fun r _ => ?_
      rcases r with e | r <;> exact .pure trivial
  | receiveFrom buffer buflen =>
    refine neutral_unchanged ?_
    unfold pSocketReceiveFrom
    split_ifs
    · exact .pure trivial
    · refine .bind (neutral_transferLoop _ _ (by simp)) fun r _ => ?_
      rcases r with e | r <;> exact .pure trivial
  | send buffer buflen =>
    refine neutral_unchanged ?_
    unfold pSocketSend
    split_ifs
    · exact .pure trivial
    · refine .bind (neutral_transferLoop _ _ (by simp)) fun r _ => ?_
      rcases r with e | r <;> exact .pure trivial
  | sendTo address buffer buflen =>
    refine neutral_unchanged ?_
    unfold pSocketSendTo
    rw [nativeAddress_eq]
    split_ifs
    · exact .pure trivial
    · rcases ppSocketCheck socket with e | u
      · exact .pure trivial
      · refine .bind (neutral_transferLoop _ _ (by simp)) fun r _ => ?_
        rcases r with e | r <;> exact .pure trivial
  | shutdown shutdown_read shutdown_write => exact .bind (neutral_shutdown _ _) fun r hr => .pure hr
  | setBufferSize rcv size => exact neutral_unchanged (neutral_setBufferSize rcv size)
  | ioConditionWait condition => exact neutral_unchanged (neutral_wait condition)
  | getLocalAddress => exact neutral_unchanged (.perform (fun r k' h => h) fun r => .pure trivial)
  | getRemoteAddress => exact neutral_unchanged (.perform (fun r k' h => h) fun r => .pure trivial)

end Plibsys.Net
