import Regolith.Library.Radix
import Regolith.Library.PrefixCode
import Regolith.Library.SortedWalk
import Regolith.Library.LexOrder
import Regolith.Ffi.Boundary
import Regolith.Go.Errors
import Regolith.Ffi.Batch
import Regolith.Go.WriteBatch
import Regolith.Frame.Theorems
import Regolith.Frame.Sizing
import Regolith.Frame.Blame
import Regolith.Frame.Cuts
import Regolith.Frame.Decode
import Regolith.Go.Write.Theorems
import Regolith.Library.RwLock
import Regolith.Ffi.Engine
import Regolith.Ffi.Txn
import Regolith.Ffi.Bounds
import Regolith.Library.Pull
import Regolith.Ffi.Iter
import Regolith.Ffi.Iter.Agreement
import Regolith.Ffi.Iter.Mixing
import Regolith.Ffi.Iter.Exhaustion
import Regolith.Go.Iter.Plain
import Regolith.Go.Iter.Faults
import Regolith.Library.Transition
import Regolith.Library.RWMutex
import Regolith.Library.Goroutine
import Regolith.Library.Discipline
import Regolith.Go.Shared.Txn
import Regolith.Go.Shared.Txn.Theorems
import Regolith.Go.Shared.DB
import Regolith.Go.Shared.DB.Theorems
import Regolith.Ffi.Session
import Regolith.Ffi.Session.Resolution
import Regolith.Ffi.Session.Theorems
import Regolith.Ffi.Iter.Rejection
import Regolith.Ffi.Iter.Framing
import Regolith.Go.Iter.Conversions
import Regolith.Ffi.Iter.Sampling
import Regolith.Ffi.Iter.Batches
import Regolith.Go.Iter.Readers
import Regolith.Go.Iter.Samples
import Regolith.Go.Iter.Rewind
import Regolith.Go.Iter.Scan
import Regolith.Go.Write.Copy
import Regolith.Go.Options.Theorems
import Regolith.Library.Program
import Regolith.Ffi.Abi
import Regolith.Ffi.Abi.Iter
import Regolith.Ffi.Abi.Theorems
import Regolith.Library.Utf8
import Regolith.Ffi.Abi.Reports
import Regolith.Library.Lending
import Regolith.Go.Lent
import Regolith.Go.Lent.Theorems
import Regolith.Go.Lent.Reports
import Regolith.Go.Lent.Contract
import Regolith.Library.Linearizable
import Regolith.Library.Served
import Regolith.Library.Linked
import Regolith.Ffi.Abi.Locals
import Regolith.Go.Shared.DB.Store
import Regolith.Go.Shared.DB.Linear
import Regolith.Go.Shared.Progress
import Regolith.Go.InMemory.Keys
import Regolith.Go.Shared.Txn.Linear
import Regolith.Go.Shared.Txn.Buffer
