import Regolith.Ffi.Boundary

-- The parts of the `regolith` engine that iterators and transactions use, as
-- interfaces: the engine itself is not in the repository.
namespace Regolith.Ffi

-- An entry of the store.
structure Item where
  key : Bytes
  value : Bytes
  deriving DecidableEq

inductive ScanDirection where
  | Forward
  | Reverse
  deriving DecidableEq

-- A cursor over a snapshot. Its moves return the moved cursor.
class OwnedSnapshotIter (C : Type) where
  seek : C → Bytes → C
  seek_for_prev : C → Bytes → C
  seek_to_first : C → C
  seek_to_last : C → C
  next : C → C
  prev : C → C
  valid : C → Bool
  key : C → Option Bytes
  value : C → Option Bytes
  value_slice : C → Option Bytes
  status : C → Except EngineError Unit

-- A pull iterator over a transaction's merged view.
class TxnScanStream (S : Type) where
  next : S → Option (Bytes × Bytes) × S
  status : S → Except EngineError Unit

-- The errors of a transaction's reads and writes, which convert as either kind.
inductive TxnOpError where
  | engine (error : EngineError)
  | transaction (error : TransactionError)

def Failure.of_op_error : TxnOpError → Failure
  | .engine error => .of_error error
  | .transaction error => .of_transaction_error error

theorem Failure.of_op_error_agrees (error : TxnOpError) : (of_op_error error).Agrees := by
  cases error with
  | engine error => exact of_error_agrees error
  | transaction error => exact of_transaction_error_agrees error

-- A transaction. Its calls may panic, and return it as they left it; `commit` and
-- `rollback` consume it, and what they return of it is reached by no later call.
class OwnedTransaction (T : Type) (S : outParam Type) where
  get_slice : T → Bytes → Except Payload (Except TxnOpError (Option Bytes)) × T
  put : T → Bytes → Bytes → Except Payload (Except TxnOpError Unit) × T
  delete : T → Bytes → Except Payload (Except TxnOpError Unit) × T
  scan_stream_in : T → Option Bytes → Option Bytes → ScanDirection → Except Payload S × T
  commit : T → Except Payload (Except TransactionError Unit) × T
  rollback : T → T

end Regolith.Ffi
