/-
  What the sockets call while they wait and transfer (`p_socket_receive`, `p_socket_receive_from`,
  `p_socket_send`, `p_socket_send_to`, `p_socket_accept`, and `p_socket_io_condition_wait` under them).
-/
import Mathlib.Data.List.Chain
import Mathlib.Tactic.SplitIfs
import Plibsys.Net.Socket

namespace Plibsys.Net

open Programs Prog

/-! ## Polls and transfers -/

/-- A loop is before a poll, or before its transfer. -/
inductive Turn where
  | poll
  | transfer
  deriving DecidableEq

section
variable (socket : PSocket) (condition : PSocketIOCondition) (x : Transfer) (message : String)

def pollCall : SysCall := .poll socket.fd condition (if 0 < socket.timeout then socket.timeout else -1)

def Turn.call : Turn → SysCall
  | .poll => pollCall socket condition
  | .transfer => .transfer socket.fd x

/-- A socket that does not block does not poll. -/
def firstTurn : Turn := if socket.blocking then .poll else .transfer

/-- After this error a transfer is tried again. -/
def retried (e : Errno) : Prop := e = .EINTR ∨ socket.blocking ∧ pErrorGetIoFromSystem e = .wouldBlock

instance (e : Errno) : Decidable (retried socket e) := inferInstanceAs (Decidable (_ ∨ _))

def timedOut (e : Errno) : PError := ⟨.timedOut, e.code, "Timed out while waiting socket condition"⟩

/-- The result of a poll that decides. -/
def waited : pint × Errno → Except PError Unit
  | (evret, errno) =>
    if evret = 1 then .ok ()
    else .error (if evret = 0 then timedOut errno else systemError errno "Failed to call poll() on socket")

/-- What the answer to a call says: the result, or none if the loop goes on. -/
def verdict : (c : SysCall) × c.Reply → Option (Except PError Transferred)
  | ⟨.poll .., (evret, errno)⟩ =>
    if evret = 1 ∨ evret = -1 ∧ errno = .EINTR then none
    else some (.error (if evret = 0 then timedOut errno else systemError errno "Failed to call poll() on socket"))
  | ⟨.transfer .., .ok r⟩ => some (.ok r)
  | ⟨.transfer .., .error e⟩ => if retried socket e then none else some (.error (systemError e message))
  | _ => none

/-- A poll that has found the socket ready. -/
def Ready : (c : SysCall) × c.Reply → Prop
  | ⟨.poll .., (evret, _)⟩ => evret = 1
  | _ => False

/-- **The calls of a wait and transfer loop** that starts at a turn, and its result. -/
structure IoTrace (first : Turn) (t : Exchanges SysCall.Reply) (r : Except PError Transferred) : Prop where
  /-- Only the descriptor of the socket is used, and only a blocking socket is polled. -/
  calls : ∀ e ∈ t, e.1 = pollCall socket condition ∧ socket.blocking ∨ e.1 = .transfer socket.fd x
  head : ∀ e ∈ t.head?, e.1 = first.call socket condition x
  /-- A blocking socket transfers when, and only when, the poll just before has found it ready. -/
  ready : t.IsChain fun e e' => e'.1 = .transfer socket.fd x ↔ Ready e ∨ ¬ socket.blocking
  /-- The first answer that does not ask for another try gives the result. -/
  result : ∃ u e, t = u ++ [e] ∧ (∀ e' ∈ u, verdict socket message e' = none) ∧ verdict socket message e = some r

/-- A function that refuses some arguments and closed sockets, and else gives what a loop has transferred. -/
def IoResult {α : Type} (refused : Prop) [Decidable refused] (result : Transferred → α)
    (t : Exchanges SysCall.Reply)
    (r : Except PError α) : Prop :=
  if refused then t = [] ∧ r = .error invalidInput
  else if socket.closed then t = [] ∧ r = .error ⟨.notAvailable, 0, "Socket is already closed"⟩
  else ∃ r', IoTrace socket condition x message (firstTurn socket) t r' ∧ r = r'.map result

/-- The two turns as a machine. -/
def Turn.after : (i : Turn) → (i.call socket condition x).Reply → Turn ⊕ Except PError Transferred
  | .poll, (evret, errno) =>
    if evret = -1 ∧ errno = .EINTR then .inl .poll
    else match waited (evret, errno) with
      | .ok () => .inl .transfer
      | .error e => .inr (.error e)
  | .transfer, .ok r => .inr (.ok r)
  | .transfer, .error e =>
      if retried socket e then .inl (firstTurn socket) else .inr (.error (systemError e message))

end

section
variable {socket : PSocket} {condition : PSocketIOCondition} {x : Transfer} {message : String} {i j : Turn}
  {t : Exchanges SysCall.Reply} {r : Except PError Transferred} {w : Except PError Unit}

theorem call_eq_transfer : i.call socket condition x = .transfer socket.fd x ↔ i = .transfer := by
  cases i with
  | poll => simp [Turn.call, pollCall]
  | transfer => simp [Turn.call]

/-- What the machine does, as a verdict and as a turn. -/
theorem after_eq (hi : i = .poll → socket.blocking) (a : (i.call socket condition x).Reply) :
    (i.after socket condition x message a).elim
      (fun j => verdict socket message ⟨_, a⟩ = none ∧ (j = .poll → socket.blocking) ∧
        (j = .transfer ↔ Ready ⟨i.call socket condition x, a⟩ ∨ ¬ socket.blocking))
      fun r => verdict socket message ⟨_, a⟩ = some r := by
  cases i with
  | poll =>
    obtain ⟨evret, errno⟩ := a
    have hblocking := hi rfl
    simp only [Turn.after, waited, Turn.call, pollCall, verdict, Ready, hblocking]
    by_cases hintr : evret = -1 ∧ errno = .EINTR
    · rw [if_pos hintr]
      obtain ⟨rfl, rfl⟩ := hintr
      simp
    · rw [if_neg hintr]
      by_cases hone : evret = 1
      · simp [hone]
      · simp [hone, hintr]
  | transfer =>
    rcases a with e | r
    · simp only [Turn.after, Turn.call, verdict, Ready, firstTurn]
      by_cases hretried : retried socket e
      · cases hblocking : socket.blocking with
        | false => simp [hretried]
        | true => simp [hretried]
      · simp [hretried]
    · simp only [Turn.after, Turn.call, verdict, Sum.elim_inr]

/-- Where the last of a list is. -/
theorem exists_last_cons {α : Type} {P Q : α → Prop} {e : α} {l : List α} :
    (∃ u e', e :: l = u ++ [e'] ∧ (∀ x ∈ u, P x) ∧ Q e') ↔
      Q e ∧ l = [] ∨ P e ∧ ∃ u e', l = u ++ [e'] ∧ (∀ x ∈ u, P x) ∧ Q e' := by
  constructor
  · rintro ⟨_ | ⟨e'', u⟩, e', hl, hu, hQ⟩
    · obtain ⟨rfl, rfl⟩ := List.cons.inj hl
      exact .inl ⟨hQ, rfl⟩
    · obtain ⟨rfl, rfl⟩ := List.cons.inj hl
      exact .inr ⟨hu _ List.mem_cons_self, u, e', rfl, fun x hx => hu x (List.mem_cons_of_mem _ hx), hQ⟩
  · rintro (⟨hQ, rfl⟩ | ⟨hP, u, e', rfl, hu, hQ⟩)
    · refine ⟨[], e, rfl, ?_, hQ⟩
      intro x hx
      cases hx
    · refine ⟨e :: u, e', rfl, ?_, hQ⟩
      intro x hx
      rcases List.mem_cons.1 hx with rfl | hx
      · exact hP
      · exact hu x hx

theorem ioTrace_cons (hi : i = .poll → socket.blocking) (a : (i.call socket condition x).Reply) :
    IoTrace socket condition x message i (⟨_, a⟩ :: t) r ↔ (i.after socket condition x message a).elim
      (fun j => IoTrace socket condition x message j t r) fun r' => r' = r ∧ t = [] := by
  have hafter := @after_eq _ _ _ message _ hi a
  have hcalls : i.call socket condition x = pollCall socket condition ∧ socket.blocking ∨
      i.call socket condition x = .transfer socket.fd x := by
    cases i with
    | poll => exact .inl ⟨rfl, hi rfl⟩
    | transfer => exact .inr rfl
  cases hj : i.after socket condition x message a with
  | inl j =>
    rw [hj] at hafter
    obtain ⟨hnone, hpoll, hready⟩ := hafter
    constructor
    · intro h
      rcases exists_last_cons.1 h.result with ⟨he, -⟩ | ⟨-, hresult⟩
      · rw [hnone] at he
        cases he
      · refine ⟨fun e he => h.calls e (List.mem_cons_of_mem _ he), ?_, h.ready.tail, hresult⟩
        intro e' he'
        obtain ⟨t, rfl⟩ := List.head?_eq_some_iff.1 he'
        obtain ⟨hcall, -⟩ := List.isChain_cons_cons.1 h.ready
        rcases h.calls e' (by simp) with ⟨hp, -⟩ | htr
        · cases j with
          | poll => exact hp
          | transfer =>
            have := hcall.2 (hready.1 rfl)
            rw [hp] at this
            cases this
        · rw [htr]
          exact (call_eq_transfer.2 (hready.2 (hcall.1 htr))).symm
    · intro h
      refine ⟨?_, ?_, ?_, exists_last_cons.2 (.inr ⟨hnone, h.result⟩)⟩
      · intro e he
        rcases List.mem_cons.1 he with rfl | he
        · exact hcalls
        · exact h.calls e he
      · rintro e ⟨⟩
        rfl
      · cases t with
        | nil => exact List.isChain_singleton _
        | cons e' t =>
          refine List.isChain_cons_cons.2 ⟨?_, h.ready⟩
          rw [h.head e' rfl, call_eq_transfer, hready]
  | inr r' =>
    rw [hj] at hafter
    constructor
    · intro h
      rcases exists_last_cons.1 h.result with ⟨he, ht⟩ | ⟨hnone, -⟩
      · rw [hafter] at he
        exact ⟨Option.some.inj he, ht⟩
      · rw [hafter] at hnone
        cases hnone
    · rintro ⟨rfl, rfl⟩
      refine ⟨?_, ?_, List.isChain_singleton _, exists_last_cons.2 (.inl ⟨hafter, rfl⟩)⟩
      · intro e he
        obtain rfl := List.mem_singleton.1 he
        exact hcalls
      · rintro e ⟨⟩
        rfl

theorem ioTrace_iff_talks (hi : i = .poll → socket.blocking) : IoTrace socket condition x message i t r ↔
    Talks (Turn.call socket condition x) (Turn.after socket condition x message) r i t := by
  induction t generalizing i with
  | nil =>
    constructor
    · rintro ⟨-, -, -, u, e, ht, -⟩
      cases u <;> cases ht
    · exact False.elim
  | cons e t ih =>
    have step : ∀ a : (i.call socket condition x).Reply,
        IoTrace socket condition x message i (⟨_, a⟩ :: t) r ↔ (i.after socket condition x message a).elim
          (fun j => Talks (Turn.call socket condition x) (Turn.after socket condition x message) r j t)
          fun r' => r' = r ∧ t = [] := by
      intro a
      rw [ioTrace_cons hi a]
      have hafter := @after_eq _ _ _ message _ hi a
      cases hj : i.after socket condition x message a with
      | inl j =>
        rw [hj] at hafter
        exact ih hafter.2.1
      | inr r' => exact Iff.rfl
    constructor
    · intro h
      obtain ⟨c, a⟩ := e
      obtain rfl : c = i.call socket condition x := h.head _ rfl
      exact ⟨a, rfl, (step a).1 h⟩
    · rintro ⟨a, rfl, h⟩
      exact (step a).2 h

/-! ## The loops -/

/-- The part of a round after the wait, and what follows. -/
def afterWait (fuel : ℕ) (socket : PSocket) (condition : PSocketIOCondition) (x : Transfer) (message : String)
    (ready : Except PError Unit) : SocketProg (Except PError Transferred) :=
  transferAfter socket x message ready >>= resume (transferRound fuel socket condition x message) fuel

theorem steady_wait : Steady fun fuel => pSocketIoConditionWait fuel socket condition := by
  unfold pSocketIoConditionWait
  cases ppSocketCheck socket with
  | error e => exact Steady.const
  | ok u => exact Steady.forever Steady.const

theorem steady_round : Steady fun fuel => transferRound fuel socket condition x message := by
  unfold transferRound
  refine Steady.bind ?_ fun ready => Steady.const
  by_cases hblocking : socket.blocking
  · simp only [hblocking, if_true]
    exact steady_wait
  · simp only [hblocking]
    exact Steady.const

theorem steady_afterWait (ready : Except PError Unit) :
    Steady fun fuel => afterWait fuel socket condition x message ready := by
  unfold afterWait
  exact Steady.bind Steady.const steady_round.resume

/-- The wait of an open socket. -/
theorem wait_eq (hopen : socket.closed = false) : (fun fuel => pSocketIoConditionWait fuel socket condition) =
    fun fuel => forever (perform (pollCall socket condition) >>= fun a => pure
      (if a.1 = -1 ∧ a.2 = .EINTR then none else some (waited a))) fuel := by
  funext fuel
  unfold pSocketIoConditionWait
  simp only [ppSocketCheck, hopen]
  refine congrArg (forever · fuel) (congrArg (perform _ >>= ·) (funext ?_))
  rintro ⟨evret, errno⟩
  dsimp only [waited]
  split_ifs <;> rfl

/-- The transfer of a round. -/
theorem traces_afterWait : Traces (fun fuel => afterWait fuel socket condition x message (.ok ())) t r ↔
    ∃ a t', t = ⟨.transfer socket.fd x, a⟩ :: t' ∧
      (Turn.after socket condition x message .transfer a).elim
        (fun _ => Traces (fun fuel => forever (transferRound fuel socket condition x message) fuel) t' r)
        fun r' => r' = r ∧ t' = [] := by
  unfold afterWait transferAfter perform
  simp only [bind_bind]
  rw [traces_perform_bind]
  refine exists_congr fun a => exists_congr fun t' => and_congr_right fun _ => ?_
  rcases a with e | r'
  · dsimp only [Turn.after]
    by_cases hintr : e = .EINTR
    · have hretried : retried socket e := .inl hintr
      rw [if_pos hintr, if_pos hretried]
      exact Iff.rfl
    · by_cases hblock : socket.blocking ∧ pErrorGetIoFromSystem e = .wouldBlock
      · have hretried : retried socket e := .inr hblock
        rw [if_neg hintr, if_pos hblock, if_pos hretried]
        exact Iff.rfl
      · have hretried : ¬ retried socket e := not_or.2 ⟨hintr, hblock⟩
        rw [if_neg hintr, if_neg hblock, if_neg hretried]
        exact traces_pure
  · exact traces_pure

/-- A loop at one of its turns. -/
def Turn.prog (socket : PSocket) (condition : PSocketIOCondition) (x : Transfer) (message : String) (fuel : ℕ) :
    Turn → SocketProg (Except PError Transferred)
  | .poll => pSocketIoConditionWait fuel socket condition >>= afterWait fuel socket condition x message
  | .transfer => afterWait fuel socket condition x message (.ok ())

/-- A round starts at the first turn. -/
theorem traces_loop : Traces (fun fuel => forever (transferRound fuel socket condition x message) fuel) t r ↔
    Traces (fun fuel => (firstTurn socket).prog socket condition x message fuel) t r := by
  rw [traces_unroll steady_round]
  refine iff_of_eq (congrArg (Traces · t r) (funext fun fuel => ?_))
  by_cases hblocking : socket.blocking
  · have hround : transferRound fuel socket condition x message =
        pSocketIoConditionWait fuel socket condition >>= transferAfter socket x message := by
      unfold transferRound
      rw [if_pos hblocking]
    rw [firstTurn, if_pos hblocking]
    exact (congrArg (· >>= resume (transferRound fuel socket condition x message) fuel) hround).trans
      (bind_bind _ _ _)
  · have hround : transferRound fuel socket condition x message = transferAfter socket x message (.ok ()) := by
      unfold transferRound
      rw [if_neg hblocking]
      rfl
    rw [firstTurn, if_neg hblocking]
    exact congrArg (· >>= resume (transferRound fuel socket condition x message) fuel) hround

theorem traces_turn (hopen : socket.closed = false) (i : Turn) (t : Exchanges SysCall.Reply) :
    Traces (fun fuel => i.prog socket condition x message fuel) t r ↔
      ∃ a t', t = ⟨i.call socket condition x, a⟩ :: t' ∧ (i.after socket condition x message a).elim
        (fun j => Traces (fun fuel => j.prog socket condition x message fuel) t' r)
        fun r' => r' = r ∧ t' = [] := by
  cases i with
  | poll =>
    have hwait : (fun fuel => Turn.prog socket condition x message fuel .poll) = fun fuel =>
        forever (perform (pollCall socket condition) >>= fun a => pure
          (if a.1 = -1 ∧ a.2 = .EINTR then none else some (waited a))) fuel >>=
          afterWait fuel socket condition x message :=
      funext fun fuel => congrArg (· >>= afterWait fuel socket condition x message) (congrFun (wait_eq hopen) fuel)
    rw [hwait]
    unfold perform
    rw [traces_forever_call steady_afterWait]
    refine exists_congr fun a => exists_congr fun t' => and_congr_right fun _ => ?_
    obtain ⟨evret, errno⟩ := a
    dsimp only [Turn.after]
    by_cases hintr : evret = -1 ∧ errno = .EINTR
    · rw [if_pos hintr, if_pos hintr]
      exact iff_of_eq (congrArg (Traces · t' r) hwait.symm)
    · rw [if_neg hintr, if_neg hintr]
      by_cases hone : evret = 1
      · simp only [waited, hone, if_true]
        exact Iff.rfl
      · simp only [waited, hone, if_false]
        exact traces_pure
  | transfer =>
    refine traces_afterWait.trans (exists_congr fun a => exists_congr fun t' => and_congr_right fun _ => ?_)
    rw [traces_loop]
    rcases a with e | r'
    · dsimp only [Turn.after]
      split_ifs <;> exact Iff.rfl
    · exact Iff.rfl

/-- The loops of an open socket make these calls, and no others. -/
theorem transferLoop_iff (hopen : socket.closed = false) :
    Traces (fun fuel => transferLoop fuel socket condition x message) t r ↔
      IoTrace socket condition x message (firstTurn socket) t r := by
  have hpoll : firstTurn socket = .poll → socket.blocking := by
    intro h
    by_contra hblocking
    rw [firstTurn, if_neg hblocking] at h
    cases h
  rw [ioTrace_iff_talks hpoll, ← traces_iff_talks (traces_turn hopen), ← traces_loop]
  unfold transferLoop
  simp only [ppSocketCheck, hopen]
  exact Iff.rfl

/-- A function that transfers. -/
theorem ioResult_iff {α : Type} {refused : Prop} [Decidable refused] {result : Transferred → α}
    {p : ℕ → SocketProg (Except PError α)} {k : Except PError Transferred → SocketProg (Except PError α)}
    {r : Except PError α} (hp : ∀ fuel, p fuel = if refused then pure (.error invalidInput)
      else transferLoop fuel socket condition x message >>= k) (hk : ∀ r', k r' = pure (r'.map result)) :
    Traces p t r ↔ IoResult socket condition x message refused result t r := by
  rw [funext hp, funext hk, IoResult]
  by_cases hrefused : refused
  · simp only [if_pos hrefused]
    rw [traces_pure, and_comm, @eq_comm _ r]
  · simp only [if_neg hrefused]
    cases hclosed : socket.closed with
    | true =>
      simp only [transferLoop, ppSocketCheck, hclosed, if_true]
      refine traces_pure.trans ?_
      rw [and_comm, @eq_comm _ r]
      rfl
    | false =>
      have hloop : Steady fun fuel => transferLoop fuel socket condition x message := by
        unfold transferLoop
        simp only [ppSocketCheck, hclosed]
        exact steady_round.forever
      rw [traces_bind (f := fun _ r' => pure (r'.map result)) hloop fun a => Steady.const]
      simp only [transferLoop_iff hclosed]
      constructor
      · rintro ⟨t₁, t₂, r', rfl, h₁, h₂⟩
        obtain ⟨rfl, rfl⟩ := traces_pure.1 h₂
        rw [List.append_nil]
        exact ⟨r', h₁, rfl⟩
      · rintro ⟨r', h, rfl⟩
        exact ⟨t, [], r', (List.append_nil t).symm, h, traces_pure.2 ⟨rfl, rfl⟩⟩

/-- An address of the library fits in a `struct sockaddr_storage`. -/
theorem nativeAddress_eq (host : Bytes.ByteOrder) (address : PSocketAddress) :
    nativeAddress host address = some (layout host address) := by
  have hsize : pSocketAddressGetNativeSize address ≤ 128 := by
    unfold pSocketAddressGetNativeSize
    cases address.family <;> decide
  rw [nativeAddress, pSocketAddressToNative_eq, if_pos hsize]
  exact congrArg some (load_store (length_layout host address))

end

/-- **Waiting and transferring.**  Whatever the system answers, a call of `p_socket_receive`,
    `p_socket_receive_from`, `p_socket_send` or `p_socket_send_to` makes the calls of a wait and transfer
    loop, and each run of such a loop is one of the function. -/
theorem pSocket_io (host : Bytes.ByteOrder) (socket : PSocket) :
    (∀ buffer buflen t r, Traces (fun fuel => pSocketReceive fuel socket buffer buflen) t r ↔
      IoResult socket .POLLIN (.recv buffer buflen.toUInt32) "Failed to call recv() on socket" (buffer = NULL)
        Transferred.ret t r) ∧
    (∀ buffer buflen t r, Traces (fun fuel => pSocketReceiveFrom host fuel socket buffer buflen) t r ↔
      IoResult socket .POLLIN (.recvfrom buffer buflen.toUInt32) "Failed to call recvfrom() on socket"
        (buffer = NULL ∨ buflen = 0) (fun r => (r.ret, pSocketAddressNewFromNative host r.sa r.optlen)) t r) ∧
    (∀ buffer buflen t r, Traces (fun fuel => pSocketSend fuel socket buffer buflen) t r ↔
      IoResult socket .POLLOUT (.send buffer buflen.toUInt32) "Failed to call send() on socket"
        (buffer = NULL ∨ buflen = 0) Transferred.ret t r) ∧
    ∀ address buffer buflen t r, Traces (fun fuel => pSocketSendTo host fuel socket address buffer buflen) t r ↔
      IoResult socket .POLLOUT (.sendto buffer buflen.toUInt32 (layout host address))
        "Failed to call sendto() on socket" (buffer = NULL) Transferred.ret t r := by
  refine ⟨?_, ?_, ?_, ?_⟩
  · intro buffer buflen t r
    refine ioResult_iff (fun fuel => rfl) ?_
    rintro (e | r) <;> rfl
  · intro buffer buflen t r
    refine ioResult_iff (fun fuel => rfl) ?_
    rintro (e | r) <;> rfl
  · intro buffer buflen t r
    refine ioResult_iff (fun fuel => rfl) ?_
    rintro (e | r) <;> rfl
  · intro address buffer buflen t r
    refine ioResult_iff (k := fun r => pure (r.map Transferred.ret)) (fun fuel => ?_) fun r => rfl
    unfold pSocketSendTo
    rw [nativeAddress_eq]
    cases hclosed : socket.closed with
    | true =>
      simp only [transferLoop, ppSocketCheck, hclosed]
      rfl
    | false =>
      simp only [ppSocketCheck, hclosed]
      refine congrArg (ite (buffer = NULL) _) (congrArg (transferLoop fuel socket _ _ _ >>= ·) (funext ?_))
      rintro (e | r) <;> rfl

end Plibsys.Net
