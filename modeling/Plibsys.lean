import Plibsys.Tree.Change
import Plibsys.Tree.Rotate
import Plibsys.Tree.RbInvariant
import Plibsys.Tree.RbInsert
import Plibsys.Tree.RbRemove
import Plibsys.Tree.AvlInvariant
import Plibsys.Tree.AvlInsert
import Plibsys.Tree.AvlRemove
import Plibsys.Tree.BstSpec
import Plibsys.Tree.Traversal
import Plibsys.Lib.SortedMap
import Plibsys.Tree.HoldsMap
import Plibsys.Lib.Runs
import Plibsys.Tree.Calls
import Plibsys.Tree.Ledger
import Plibsys.Tree.Balance
import Plibsys.Lib.Ring
import Plibsys.Shm.Buffer
import Plibsys.Shm.BufferSpec
import Plibsys.Shm.BufferRuns
import Plibsys.Table.HashTable
import Plibsys.Table.HashTableMap
import Plibsys.Lib.Blocks
import Plibsys.Lib.Bytes
import Plibsys.Crypto.MerkleDamgard
import Plibsys.Crypto.Md5
import Plibsys.Crypto.Sha1
import Plibsys.Crypto.Sha256
import Plibsys.Crypto.Sha512
import Plibsys.Crypto.MdStream
import Plibsys.Crypto.MdFinish
import Plibsys.Crypto.MdHashes
import Plibsys.Crypto.Gost3411
import Plibsys.Lib.WordSum
import Plibsys.Crypto.GostStream
import Plibsys.Crypto.CryptoHash
import Plibsys.Crypto.LifeCycle
import Plibsys.Ipc.System
import Plibsys.Ipc.Key
import Plibsys.Ipc.PosixSemaphore
import Plibsys.Ipc.SemaphoreNew
import Plibsys.Ipc.PosixShm
import Plibsys.Ipc.SysvSemaphore
import Plibsys.Ipc.SysvShm
import Plibsys.Ipc.PosixShmNew
import Plibsys.Ipc.SysvShmNew
import Plibsys.Shm.BufferNew
import Plibsys.Shm.Geometry
import Plibsys.Lib.Lines
import Plibsys.Lib.Scan
import Plibsys.Text.Strchomp
import Plibsys.Ini.IniFile
import Plibsys.Lib.Sections
import Plibsys.Ini.Access
import Plibsys.Ini.Entries
import Plibsys.Ini.Views
import Plibsys.Ini.Rendered
import Plibsys.Ini.RoundTrip
import Plibsys.Ini.LastAssignment
import Plibsys.Ini.Comments
import Plibsys.Crypto.GostSum
import Plibsys.Tree.Morris
import Plibsys.Lib.Interleaving
import Plibsys.Thread.TlsKey
import Plibsys.Thread.TlsPosix
import Plibsys.Thread.TlsSolaris
import Plibsys.Thread.UThread
import Plibsys.Thread.UThreadOwners
import Plibsys.Thread.UThreadLifetime
import Plibsys.Ipc.SemaphoreNames
import Plibsys.Ipc.SysvOwned
import Plibsys.Ipc.SysvDebris
import Plibsys.Ipc.ShmOpeners
import Plibsys.Ipc.ShmAmid
import Plibsys.Ipc.ShmAmidNew
import Plibsys.Ipc.ShmShared
import Plibsys.Ipc.Faults
import Plibsys.Ipc.Constructors
import Plibsys.Ipc.Erasure
import Plibsys.Ipc.FaultRules
import Plibsys.Ipc.CleanUp
import Plibsys.Ipc.FailedConstructors
import Plibsys.Crypto.Fips180
import Plibsys.Crypto.Sha1Block
import Plibsys.Crypto.Sha2Block
import Plibsys.Crypto.Rfc1321
import Plibsys.Crypto.Gost94
import Plibsys.Crypto.Md5Block
import Plibsys.Crypto.GostMixing
import Plibsys.Crypto.GostBlock
import Plibsys.Crypto.LongUpdates
import Plibsys.Shm.LongCopies
import Plibsys.Lib.Words
import Plibsys.Ini.ListValues
import Plibsys.Lib.Decimal
import Plibsys.Text.Strtod
import Plibsys.Lib.Tally
import Plibsys.Thread.CondVariable
import Plibsys.Lib.Checked
import Plibsys.Ipc.TempDir
import Plibsys.Net.Shutdown
import Plibsys.Ini.Buffers
import Plibsys.Ini.LongLines
import Plibsys.Lib.Fields
import Plibsys.Lock.Words
import Plibsys.Lock.RwlockGeneral
import Plibsys.Lock.RwlockWaiters
import Plibsys.Lock.RwlockXp
import Plibsys.Lock.RwlockReaders
import Plibsys.Lock.RwlockXpWaiters
import Plibsys.Lock.RwlockXpReaders
import Plibsys.Lib.Critical
import Plibsys.Crypto.Digests
import Plibsys.Lock.Atomic
import Plibsys.Lock.AtomicCounters
import Plibsys.Lock.SpinLock
import Plibsys.Shm.BufferSteps
import Plibsys.Lib.Traces
import Plibsys.Net.Socket
import Plibsys.Net.SocketLedger
import Plibsys.Lib.LinkedChain
import Plibsys.Lists.ListCalls
import Plibsys.Lists.ListRuns
import Plibsys.Net.SocketConnect
import Plibsys.Thread.TlsWindows
import Plibsys.Thread.TlsWindowsRuns
