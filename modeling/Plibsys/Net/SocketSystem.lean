/-
  What the sockets use of the system (Linux), and the errors of the library (`perror.c`, `perrortypes.h`).
-/
import Plibsys.Lib.Traces
import Plibsys.Net.SocketAddress

namespace Plibsys.Net

open Programs

/-! ## Errors -/

inductive PErrorIO where
  | none
  | noResources
  | notAvailable
  | accessDenied
  | connected
  | inProgress
  | aborted
  | invalidArgument
  | notSupported
  | timedOut
  | wouldBlock
  | addressInUse
  | connectionRefused
  | notConnected
  | quota
  | isDirectory
  | notDirectory
  | nameTooLong
  | exists
  | notExists
  | noMore
  | notImplemented
  | failed
  deriving DecidableEq, Repr

structure PError where
  code : PErrorIO
  native_code : pint
  message : String
  deriving DecidableEq, Repr

/-- The errors of the system that the library tells apart, `EINTR`, and the others by their numbers. -/
inductive Errno where
  | EPERM | ENOENT | EINTR | EBADF | EAGAIN | ENOMEM | EACCES | EFAULT | EEXIST | ENOTDIR | EISDIR | EINVAL | ENFILE
  | EMFILE | ENOSPC | ENAMETOOLONG | ENOSYS | ENOSR | ENONET | ENOTSOCK | EPROTOTYPE | ENOPROTOOPT | EPROTONOSUPPORT
  | EOPNOTSUPP | EAFNOSUPPORT | EADDRINUSE | EADDRNOTAVAIL | ENETDOWN | ENETUNREACH | ECONNABORTED
  | ENOBUFS | EISCONN | ENOTCONN | ETIMEDOUT | ECONNREFUSED | EHOSTDOWN | EHOSTUNREACH | EALREADY
  | EINPROGRESS | EDQUOT | other (code : pint)
  deriving DecidableEq, Repr

def Errno.code : Errno → pint
  | .EPERM => 1 | .ENOENT => 2 | .EINTR => 4 | .EBADF => 9 | .EAGAIN => 11 | .ENOMEM => 12 | .EACCES => 13
  | .EFAULT => 14 | .EEXIST => 17 | .ENOTDIR => 20 | .EISDIR => 21 | .EINVAL => 22 | .ENFILE => 23 | .EMFILE => 24
  | .ENOSPC => 28 | .ENAMETOOLONG => 36 | .ENOSYS => 38 | .ENOSR => 63 | .ENONET => 64 | .ENOTSOCK => 88
  | .EPROTOTYPE => 91 | .ENOPROTOOPT => 92 | .EPROTONOSUPPORT => 93 | .EOPNOTSUPP => 95 | .EAFNOSUPPORT => 97
  | .EADDRINUSE => 98 | .EADDRNOTAVAIL => 99 | .ENETDOWN => 100 | .ENETUNREACH => 101 | .ECONNABORTED => 103
  | .ENOBUFS => 105 | .EISCONN => 106 | .ENOTCONN => 107 | .ETIMEDOUT => 110 | .ECONNREFUSED => 111
  | .EHOSTDOWN => 112 | .EHOSTUNREACH => 113 | .EALREADY => 114 | .EINPROGRESS => 115 | .EDQUOT => 122
  | .other code => code

/-- `p_error_get_io_from_system`, for an error. -/
def pErrorGetIoFromSystem : Errno → PErrorIO
  | .EACCES | .EPERM => .accessDenied
  | .ENOMEM | .ENOSR | .ENOBUFS | .ENFILE | .ENOSPC | .EMFILE => .noResources
  | .EINVAL | .EBADF | .ENOTSOCK | .EFAULT | .EPROTOTYPE => .invalidArgument
  | .ENOPROTOOPT | .EPROTONOSUPPORT | .EAFNOSUPPORT | .EOPNOTSUPP => .notSupported
  | .EADDRNOTAVAIL | .ENETUNREACH | .ENETDOWN | .EHOSTDOWN | .ENONET | .EHOSTUNREACH => .notAvailable
  | .EINPROGRESS | .EALREADY => .inProgress
  | .EISCONN => .connected
  | .ECONNREFUSED => .connectionRefused
  | .ENOTCONN => .notConnected
  | .ECONNABORTED => .aborted
  | .EADDRINUSE => .addressInUse
  | .ETIMEDOUT => .timedOut
  | .EDQUOT => .quota
  | .EISDIR => .isDirectory
  | .ENOTDIR => .notDirectory
  | .EEXIST => .exists
  | .ENOENT => .notExists
  | .ENAMETOOLONG => .nameTooLong
  | .ENOSYS => .notImplemented
  | .EAGAIN => .wouldBlock
  | .EINTR | .other _ => .failed

/-- An error of a call of the system. -/
def systemError (e : Errno) (message : String) : PError := ⟨pErrorGetIoFromSystem e, e.code, message⟩

def invalidInput : PError := ⟨.invalidArgument, 0, "Invalid input argument"⟩

/-! ## Calls -/

inductive PSocketType where
  | unknown
  | stream
  | datagram
  | seqpacket
  deriving DecidableEq, Repr

inductive PSocketProtocol where
  | unknown
  | default
  | tcp
  | udp
  | sctp
  deriving DecidableEq, Repr

inductive PSocketIOCondition where
  | POLLIN
  | POLLOUT
  deriving DecidableEq, Repr

inductive How where
  | SHUT_RD
  | SHUT_WR
  | SHUT_RDWR
  deriving DecidableEq, Repr

inductive SockOpt where
  | SO_REUSEADDR
  | SO_REUSEPORT
  | SO_KEEPALIVE
  | SO_RCVBUF
  | SO_SNDBUF
  deriving DecidableEq, Repr

/-- The calls that move a connection or data, with their buffers; a length is a `socklen_t`. -/
inductive Transfer where
  | accept
  | recv (buffer : ppointer) (len : puint)
  | recvfrom (buffer : ppointer) (len : puint)
  | send (buffer : ppointer) (len : puint)
  | sendto (buffer : ppointer) (len : puint) (address : List UInt8)

/-- What such a call returns; `recvfrom ()` also stores an address and its length. -/
structure Transferred where
  ret : pssize
  sa : Memory
  optlen : psize

inductive SysCall where
  | malloc
  | socket (family : PSocketFamily) (type : PSocketType) (protocol : PSocketProtocol)
  | close (fd : pint)
  | getFl (fd : pint)
  | setFl (fd : pint) (arg : puint32)
  | getFd (fd : pint)
  | setFd (fd : pint) (flags : puint32)
  | getType (fd : pint)
  | getDomain (fd : pint)
  | getKeepalive (fd : pint)
  | getError (fd : pint)
  | setsockopt (fd : pint) (name : SockOpt) (value : pint)
  | getsockname (fd : pint)
  | getpeername (fd : pint)
  | bind (fd : pint) (address : List UInt8)
  | connect (fd : pint) (address : List UInt8)
  | listen (fd : pint) (backlog : pint)
  | shutdown (fd : pint) (how : How)
  | poll (fd : pint) (events : PSocketIOCondition) (timeout : pint)
  | transfer (fd : pint) (x : Transfer)

/-- The answers.  `getsockopt ()` gives a value and its length, `getsockname ()` an address and its length;
    `poll ()` is answered with its result and the number of the last error. -/
abbrev SysCall.Reply : SysCall → Type
  | .malloc => Bool
  | .socket .. => Except Errno pint
  | .getFl _ | .getFd _ => Except Errno puint32
  | .getType _ => Except Errno (pint × psize)
  | .getKeepalive _ => Except Errno pint
  | .getError _ => Except Errno (Option Errno)
  | .getsockname _ | .getpeername _ => Except Errno (Memory × psize)
  | .poll .. => pint × Errno
  | .transfer .. => Except Errno Transferred
  | .close _ | .setFl .. | .setFd .. | .getDomain _ | .setsockopt .. | .bind .. | .connect .. | .listen ..
  | .shutdown .. => Except Errno Unit

abbrev SocketProg := Prog SysCall SysCall.Reply

def perform (c : SysCall) : SocketProg c.Reply := Prog.perform c

end Plibsys.Net
