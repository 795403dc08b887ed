/-
  Sockets (`psocket.c`), as programs that make calls of the system.

  The platform is Linux, with `SO_DOMAIN`, `SO_REUSEPORT`, `SOCK_CLOEXEC` and IPv6.  A function that changes the
  socket gives back the changed one.  Pointers to sockets and addresses are not `NULL`; `fuel` bounds the loops.
-/
import Plibsys.Net.SocketSystem

namespace Plibsys.Net

open Bytes Programs Prog

structure PSocket where
  family : PSocketFamily
  protocol : PSocketProtocol
  type : PSocketType
  fd : pint
  listen_backlog : pint
  timeout : pint
  blocking : Bool
  keepalive : Bool
  closed : Bool
  connected : Bool
  listening : Bool
  deriving DecidableEq, Repr

/-- `p_malloc0 (sizeof (PSocket))`. -/
def PSocket.zero : PSocket := ⟨.unknown, .default, .unknown, 0, 0, 0, false, false, false, false, false⟩

def O_NONBLOCK : puint32 := 0x800

def FD_CLOEXEC : puint32 := 1

def P_SOCKET_DEFAULT_BACKLOG : pint := 5

/-! ## Details -/

def ppSocketSetFdBlocking (fd : pint) (blocking : Bool) : SocketProg (Except PError Unit) := do
  let arg := match ← perform (.getFl fd) with
    | .ok arg => arg
    | .error _ => 0
  let arg := if !blocking then arg ||| O_NONBLOCK else arg &&& ~~~O_NONBLOCK
  match ← perform (.setFl fd arg) with
  | .ok () => return .ok ()
  | .error e => return .error (systemError e "Failed to set socket blocking flags")

def ppSocketCheck (socket : PSocket) : Except PError Unit :=
  if socket.closed then .error ⟨.notAvailable, 0, "Socket is already closed"⟩ else .ok ()

/-- `SOCK_STREAM`, `SOCK_DGRAM` and `SOCK_SEQPACKET`. -/
def typeOfNative (value : pint) : PSocketType :=
  if value = 1 then .stream else if value = 2 then .datagram else if value = 5 then .seqpacket else .unknown

def protocolOfType (old : PSocketProtocol) : PSocketType → PSocketProtocol
  | .stream => .tcp
  | .datagram => .udp
  | .seqpacket => .sctp
  | .unknown => old

section
variable (host : ByteOrder)

/-- `address.ss_family`. -/
def familyOfNative (address : Memory) : PSocketFamily :=
  let family := word host 16 (load address 0 2)
  if family = AF_INET then .inet else if family = AF_INET6 then .inet6 else .unknown

/-- `socket->connected`, in `pp_socket_set_details_from_fd`. -/
def setConnected (socket : PSocket) : SocketProg PSocket :=
  if socket.family = .unknown then return socket
  else do
    match ← perform (.getpeername socket.fd) with
    | .ok _ => return { socket with connected := true }
    | .error _ => return socket

/-- `socket->keepalive`, in `pp_socket_set_details_from_fd`. -/
def setKeepalive (socket : PSocket) : SocketProg PSocket := do
  match ← perform (.getKeepalive socket.fd) with
  | .ok value => return { socket with keepalive := value != 0 }
  | .error _ => return { socket with keepalive := false }

def ppSocketSetDetailsFromFd (socket : PSocket) : SocketProg (Except PError PSocket) := do
  let fd := socket.fd
  match ← perform (.getType fd) with
  | .error e => return .error (systemError e "Failed to call getsockopt() to get socket info for fd")
  | .ok (value, optlen) =>
    if optlen ≠ 4 then
      return .error ⟨.invalidArgument, 0, "Failed to get socket info for fd, bad option length"⟩
    let socket := { socket with type := typeOfNative value }
    match ← perform (.getsockname fd) with
    | .error e => return .error (systemError e "Failed to call getsockname() to get socket address info")
    | .ok (address, addrlen) =>
      -- the domain is asked for, and not used
      let domain ← (if 0 < addrlen then pure (.ok ()) else perform (.getDomain fd))
      match domain with
      | .error e => return .error (systemError e "Failed to call getsockopt() to get socket SO_DOMAIN option")
      | .ok () =>
        let socket := { socket with family := familyOfNative host address }
        let socket :=
          if socket.family = .unknown then socket
          else { socket with protocol := protocolOfType socket.protocol socket.type }
        let socket ← setConnected socket
        return .ok (← setKeepalive socket)

def pSocketSetListenBacklog (socket : PSocket) (backlog : pint) : PSocket :=
  if socket.listening then socket else { socket with listen_backlog := backlog }

/-! ## Life cycle -/

def pSocketNewFromFd (fd : pint) : SocketProg (Except PError PSocket) := do
  if fd < 0 then
    return .error ⟨.invalidArgument, 0, "Unable to create socket from bad fd"⟩
  if !(← perform .malloc) then
    return .error ⟨.noResources, 0, "Failed to allocate memory for socket"⟩
  match ← ppSocketSetDetailsFromFd host { PSocket.zero with fd := fd } with
  | .error e => return .error e
  | .ok socket =>
    match ← ppSocketSetFdBlocking socket.fd false with
    | .error e => return .error e
    | .ok () =>
      let socket := pSocketSetListenBacklog socket P_SOCKET_DEFAULT_BACKLOG
      return .ok { socket with timeout := 0, blocking := true }

/-- `fcntl ()` with `FD_CLOEXEC`, in `p_socket_new` and `p_socket_accept`. -/
def setCloexec (fd : pint) : SocketProg Unit := do
  match ← perform (.getFd fd) with
  | .error _ => return ()
  | .ok flags =>
    if flags &&& FD_CLOEXEC = 0 then
      let _ ← perform (.setFd fd (flags ||| FD_CLOEXEC))
      return ()
    else return ()

def pSocketClose (socket : PSocket) : SocketProg (Except PError Unit × PSocket) := do
  if socket.closed then
    return (.ok (), socket)
  match ← perform (.close socket.fd) with
  | .ok () => return (.ok (), { socket with connected := false, closed := true, listening := false, fd := -1 })
  | .error e => return (.error (systemError e "Failed to close socket"), socket)

/-- The socket is closed and its memory is freed. -/
def pSocketFree (socket : PSocket) : SocketProg Unit := do
  let _ ← pSocketClose socket
  return ()

def pSocketNew (family : PSocketFamily) (type : PSocketType) (protocol : PSocketProtocol) :
    SocketProg (Except PError PSocket) := do
  if family = .unknown ∨ type = .unknown ∨ protocol = .unknown then
    return .error ⟨.invalidArgument, 0, "Invalid input socket family, type or protocol"⟩
  if !(← perform .malloc) then
    return .error ⟨.noResources, 0, "Failed to allocate memory for socket"⟩
  match ← perform (.socket family type protocol) with
  | .error e => return .error (systemError e "Failed to call socket() to create socket")
  | .ok fd =>
    setCloexec fd
    let socket := { PSocket.zero with fd := fd }
    match ← ppSocketSetFdBlocking socket.fd false with
    | .error e =>
      pSocketFree socket
      return .error e
    | .ok () =>
      let socket := { socket with
        timeout := 0, blocking := true, family := family, protocol := protocol, type := type }
      return .ok (pSocketSetListenBacklog socket P_SOCKET_DEFAULT_BACKLOG)

/-! ## Waiting and transferring -/

def pSocketIoConditionWait (fuel : ℕ) (socket : PSocket) (condition : PSocketIOCondition) :
    SocketProg (Except PError Unit) :=
  match ppSocketCheck socket with
  | .error e => return .error e
  | .ok () =>
    let timeout := if 0 < socket.timeout then socket.timeout else -1
    forever (do
      let (evret, errno) ← perform (.poll socket.fd condition timeout)
      if evret = -1 ∧ errno = .EINTR then return none
      if evret = 1 then return some (.ok ())
      if evret = 0 then
        return some (.error ⟨.timedOut, errno.code, "Timed out while waiting socket condition"⟩)
      return some (.error (systemError errno "Failed to call poll() on socket"))) fuel

/-- The transfer of a round, after the wait. -/
def transferAfter (socket : PSocket) (x : Transfer) (message : String) (ready : Except PError Unit) :
    SocketProg (Option (Except PError Transferred)) :=
  match ready with
  | .error e => return some (.error e)
  | .ok () => do
    match ← perform (.transfer socket.fd x) with
    | .ok r => return some (.ok r)
    | .error e =>
      if e = .EINTR then return none
      if socket.blocking ∧ pErrorGetIoFromSystem e = .wouldBlock then return none
      return some (.error (systemError e message))

/-- One round of the loops of `p_socket_accept`, `p_socket_receive`, `p_socket_receive_from`, `p_socket_send` and
    `p_socket_send_to`. -/
def transferRound (fuel : ℕ) (socket : PSocket) (condition : PSocketIOCondition) (x : Transfer)
    (message : String) :
    SocketProg (Option (Except PError Transferred)) := do
  let ready ← (if socket.blocking then pSocketIoConditionWait fuel socket condition else pure (.ok ()))
  transferAfter socket x message ready

def transferLoop (fuel : ℕ) (socket : PSocket) (condition : PSocketIOCondition) (x : Transfer) (message : String) :
    SocketProg (Except PError Transferred) :=
  match ppSocketCheck socket with
  | .error e => return .error e
  | .ok () => forever (transferRound fuel socket condition x message) fuel

variable (fuel : ℕ) (socket : PSocket)

def pSocketAccept : SocketProg (Except PError PSocket) := do
  match ← transferLoop fuel socket .POLLIN .accept "Failed to call accept() on socket" with
  | .error e => return .error e
  | .ok r =>
    let res := r.ret.toInt32
    setCloexec res
    match ← pSocketNewFromFd host res with
    | .error e =>
      let _ ← perform (.close res)
      return .error e
    | .ok accepted => return .ok { accepted with protocol := socket.protocol }

def pSocketReceive (buffer : ppointer) (buflen : psize) : SocketProg (Except PError pssize) :=
  if buffer = NULL then return .error invalidInput
  else do
    match ← transferLoop fuel socket .POLLIN (.recv buffer buflen.toUInt32) "Failed to call recv() on socket" with
    | .error e => return .error e
    | .ok r => return .ok r.ret

/-- With the address of the sender, if it is one of the library. -/
def pSocketReceiveFrom (buffer : ppointer) (buflen : psize) :
    SocketProg (Except PError (pssize × Option PSocketAddress)) :=
  if buffer = NULL ∨ buflen = 0 then return .error invalidInput
  else do
    match ← transferLoop fuel socket .POLLIN (.recvfrom buffer buflen.toUInt32)
      "Failed to call recvfrom() on socket" with
    | .error e => return .error e
    | .ok r => return .ok (r.ret, pSocketAddressNewFromNative host r.sa r.optlen)

def pSocketSend (buffer : ppointer) (buflen : psize) : SocketProg (Except PError pssize) :=
  if buffer = NULL ∨ buflen = 0 then return .error invalidInput
  else do
    match ← transferLoop fuel socket .POLLOUT (.send buffer buflen.toUInt32) "Failed to call send() on socket" with
    | .error e => return .error e
    | .ok r => return .ok r.ret

/-- The bytes of an address in a `struct sockaddr_storage`. -/
def nativeAddress (address : PSocketAddress) : Option (List UInt8) :=
  let (ok, buffer) := pSocketAddressToNative host address (fun _ => 0) 128
  if ok then some (load buffer 0 (pSocketAddressGetNativeSize address).toNat) else none

def conversionFailed : PError := ⟨.failed, 0, "Failed to convert socket address to native structure"⟩

def pSocketSendTo (address : PSocketAddress) (buffer : ppointer) (buflen : psize) :
    SocketProg (Except PError pssize) :=
  if buffer = NULL then return .error invalidInput
  else
    match ppSocketCheck socket, nativeAddress host address with
    | .error e, _ => return .error e
    | .ok (), none => return .error conversionFailed
    | .ok (), some sa => do
      match ← transferLoop fuel socket .POLLOUT (.sendto buffer buflen.toUInt32 sa)
        "Failed to call sendto() on socket" with
      | .error e => return .error e
      | .ok r => return .ok r.ret

/-! ## Connections -/

def pSocketCheckConnectResult : SocketProg (Except PError Unit × PSocket) := do
  match ← perform (.getError socket.fd) with
  | .error e => return (.error (systemError e "Failed to call getsockopt() to get connection status"), socket)
  | .ok none => return (.ok (), { socket with connected := true })
  | .ok (some e) => return (.error (systemError e "Error in socket layer"), { socket with connected := false })

/-- The loop of `p_socket_connect`. -/
def connectLoop (sa : List UInt8) : SocketProg (Except Errno Unit) :=
  forever (do
    match ← perform (.connect socket.fd sa) with
    | .ok () => return some (.ok ())
    | .error e => if e = .EINTR then return none else return some (.error e)) fuel

def pSocketConnect (address : PSocketAddress) : SocketProg (Except PError Unit × PSocket) :=
  match ppSocketCheck socket, nativeAddress host address with
  | .error e, _ => return (.error e, socket)
  | .ok (), none => return (.error conversionFailed, socket)
  | .ok (), some sa => do
    match ← connectLoop fuel socket sa with
    | .ok () => return (.ok (), { socket with connected := true })
    | .error e =>
      let sock_err := pErrorGetIoFromSystem e
      if sock_err = .wouldBlock ∨ sock_err = .inProgress then
        if socket.blocking then
          match ← pSocketIoConditionWait fuel socket .POLLOUT with
          | .error e => return (.error e, socket)
          | .ok () =>
            match ← pSocketCheckConnectResult socket with
            | (.error e, socket) => return (.error e, socket)
            | (.ok (), socket) => return (.ok (), { socket with connected := true })
        else return (.error ⟨sock_err, e.code, "Couldn't block non-blocking socket"⟩, socket)
      else return (.error (systemError e "Failed to call connect() on socket"), socket)

def pSocketBind (address : PSocketAddress) (allow_reuse : Bool) : SocketProg (Except PError Unit) :=
  match ppSocketCheck socket with
  | .error e => return .error e
  | .ok () => do
    let _ ← perform (.setsockopt socket.fd .SO_REUSEADDR (if allow_reuse then 1 else 0))
    let reuse_port := allow_reuse && socket.type = .datagram
    let _ ← perform (.setsockopt socket.fd .SO_REUSEPORT (if reuse_port then 1 else 0))
    match nativeAddress host address with
    | none => return .error conversionFailed
    | some sa =>
      match ← perform (.bind socket.fd sa) with
      | .error e => return .error (systemError e "Failed to call bind() on socket")
      | .ok () => return .ok ()

def pSocketListen : SocketProg (Except PError Unit × PSocket) :=
  match ppSocketCheck socket with
  | .error e => return (.error e, socket)
  | .ok () => do
    match ← perform (.listen socket.fd socket.listen_backlog) with
    | .error e => return (.error (systemError e "Failed to call listen() on socket"), socket)
    | .ok () => return (.ok (), { socket with listening := true })

/-- The variable `how` of `p_socket_shutdown`. -/
def how (shutdown_read shutdown_write : pboolean) : How :=
  if shutdown_read = TRUE ∧ shutdown_write = TRUE then .SHUT_RDWR
  else if shutdown_read = TRUE then .SHUT_RD
  else .SHUT_WR

/-- The arguments may have any value; the socket does not remember which directions have been shut down. -/
def pSocketShutdown (shutdown_read shutdown_write : pboolean) : SocketProg (Except PError Unit × PSocket) :=
  match ppSocketCheck socket with
  | .error e => return (.error e, socket)
  | .ok () => do
    if shutdown_read = FALSE ∧ shutdown_write = FALSE then
      return (.ok (), socket)
    match ← perform (.shutdown socket.fd (how shutdown_read shutdown_write)) with
    | .error e => return (.error (systemError e "Failed to call shutdown() on socket"), socket)
    | .ok () =>
      if shutdown_read = TRUE ∧ shutdown_write = TRUE then
        return (.ok (), { socket with connected := false })
      return (.ok (), socket)

def pSocketIsConnected : pboolean := if socket.connected then TRUE else FALSE

def pSocketIsClosed : pboolean := if socket.closed then TRUE else FALSE

/-! ## Options -/

def pSocketSetKeepalive (keepalive : Bool) : SocketProg PSocket := do
  if socket.keepalive = keepalive then
    return socket
  match ← perform (.setsockopt socket.fd .SO_KEEPALIVE (if keepalive then 1 else 0)) with
  | .error _ => return socket
  | .ok () => return { socket with keepalive := keepalive }

def pSocketSetBlocking (blocking : Bool) : PSocket := { socket with blocking := blocking }

def pSocketSetTimeout (timeout : pint) : PSocket :=
  { socket with timeout := if timeout < 0 then 0 else timeout }

/-- `P_SOCKET_DIRECTION_RCV`, or the other direction. -/
def pSocketSetBufferSize (receive : Bool) (size : psize) : SocketProg (Except PError Unit) :=
  match ppSocketCheck socket with
  | .error e => return .error e
  | .ok () => do
    let optname := if receive then SockOpt.SO_RCVBUF else .SO_SNDBUF
    match ← perform (.setsockopt socket.fd optname size.toUInt32.toInt32) with
    | .error e => return .error (systemError e "Failed to call setsockopt() on socket to set buffer size")
    | .ok () => return .ok ()

/-- The common text of `p_socket_get_local_address` and `p_socket_get_remote_address`. -/
def addressOf (answer : Except Errno (Memory × psize)) (message : String) : Except PError PSocketAddress :=
  match answer with
  | .error e => .error (systemError e message)
  | .ok (buffer, len) =>
    match pSocketAddressNewFromNative host buffer len with
    | none => .error ⟨.failed, 0, "Failed to create socket address from native structure"⟩
    | some address => .ok address

def pSocketGetLocalAddress : SocketProg (Except PError PSocketAddress) := do
  return addressOf host (← perform (.getsockname socket.fd))
    "Failed to call getsockname() to get local socket address"

def pSocketGetRemoteAddress : SocketProg (Except PError PSocketAddress) := do
  return addressOf host (← perform (.getpeername socket.fd))
    "Failed to call getpeername() to get remote socket address"

end

end Plibsys.Net
