import Regolith.Ffi.Engine
import Regolith.Library.RwLock

-- Transaction entry points (`ffi/src/txn.rs`).
namespace Regolith.Ffi

-- The body of a transaction handle, shared with the iterators opened from it.
structure TxnInner (T : Type) where
  txn : RwLock (Option T)
  readonly : Bool

def unusable : Failure :=
  .other "transaction unusable after a panic; discard it and begin a new one"

namespace TxnInner

variable {T R : Type}

def new (txn : T) (readonly : Bool) : TxnInner T :=
  ⟨.new (some txn), readonly⟩

-- `TxnInner::with`: `body` runs under the read guard.
def with_txn (inner : TxnInner T) (body : T → Except Payload R × T) :
    Except Raised R × TxnInner T :=
  let run : Option T → Except Payload (Except Failure R) × Option T := fun guard =>
    match guard with
    | some txn => ((body txn).1.map .ok, some (body txn).2)
    | none => (.ok (.error (.code DISCARDED)), none)
  match inner.txn.hold .read run with
  | none => (fail unusable, inner)
  | some (.ok (.ok result), lock) => (.ok result, { inner with txn := lock })
  | some (.ok (.error failure), lock) => (fail failure, { inner with txn := lock })
  | some (.error payload, lock) => (.error (.panic payload), { inner with txn := lock })

-- `TxnInner::take`: the guard is dropped before the transaction is used.
def take (inner : TxnInner T) : Except Raised T × TxnInner T :=
  let run : Option T → Except Payload (Option T) × Option T := fun guard => (.ok guard, none)
  match inner.txn.hold .write run with
  | none => (fail unusable, inner)
  | some (.ok (some txn), lock) => (.ok txn, { inner with txn := lock })
  | some (.ok none, lock) => (fail (.code DISCARDED), { inner with txn := lock })
  | some (.error payload, lock) => (.error (.panic payload), { inner with txn := lock })

end TxnInner

-- A lent value: its bytes, and whether a handle pins them.
structure Borrowed where
  bytes : Bytes
  handle : Bool

def out_borrowed (slice : Bytes) (out_ptr out_len out_handle : OutParam) :
    Except Raised Borrowed :=
  if out_ptr = .null ∨ out_len = .null ∨ out_handle = .null then
    fail (.invalid_arg "null out-param")
  else .ok ⟨slice, !slice.isEmpty⟩

section Calls

variable {T S R : Type} [OwnedTransaction T S]

-- `with(..)??`: the closure's own error is converted and returned.
def flatten (result : Except Raised (Except TxnOpError R)) : Except Raised R :=
  match result with
  | .ok (.ok value) => .ok value
  | .ok (.error error) => fail (.of_op_error error)
  | .error raised => .error raised

def regolith_txn_get_borrowed (txn : TxnInner T) (key : InBytes)
    (val val_len value_handle err : OutParam) : Reply Borrowed × TxnInner T :=
  match in_bytes key with
  | none => (guard err (fail (.invalid_arg "null key")), txn)
  | some key =>
      let (result, txn) := txn.with_txn (OwnedTransaction.get_slice · key)
      let body :=
        match flatten result with
        | .ok (some slice) => out_borrowed slice val val_len value_handle
        | .ok none => fail (.code NOT_FOUND)
        | .error raised => .error raised
      (guard err body, txn)

def regolith_txn_has (txn : TxnInner T) (key : InBytes) (found err : OutParam) :
    Reply Bool × TxnInner T :=
  match in_bytes key with
  | none => (guard err (fail (.invalid_arg "null key")), txn)
  | some key =>
      let (result, txn) := txn.with_txn (OwnedTransaction.get_slice · key)
      let body :=
        match flatten result with
        | .ok slice => out_bool slice.isSome found
        | .error raised => .error raised
      (guard err body, txn)

def regolith_txn_set (txn : TxnInner T) (key value : InBytes) (err : OutParam) :
    Reply Unit × TxnInner T :=
  if txn.readonly then (guard err (fail (.code READ_ONLY_TXN)), txn)
  else
    match in_bytes key, in_bytes value with
    | some key, some value =>
        let (result, txn) := txn.with_txn (OwnedTransaction.put · key value)
        (guard err (flatten result), txn)
    | _, _ => (guard err (fail (.invalid_arg "null key or value")), txn)

def regolith_txn_delete (txn : TxnInner T) (key : InBytes) (err : OutParam) :
    Reply Unit × TxnInner T :=
  if txn.readonly then (guard err (fail (.code READ_ONLY_TXN)), txn)
  else
    match in_bytes key with
    | some key =>
        let (result, txn) := txn.with_txn (OwnedTransaction.delete · key)
        (guard err (flatten result), txn)
    | none => (guard err (fail (.invalid_arg "null key")), txn)

-- The handle is freed on every path. What the engine made of the transaction, if
-- it was reached, is the second result.
def regolith_txn_commit (txn : TxnInner T) (err : OutParam) :
    Reply Unit × Option T × TxnInner T :=
  match txn.take with
  | (.error raised, txn) => (guard err (.error raised), none, txn)
  | (.ok owned, txn) =>
      let (result, spent) := OwnedTransaction.commit owned
      let body :=
        match result with
        | .ok (.ok ()) => .ok ()
        | .ok (.error error) => fail (.of_transaction_error error)
        | .error payload => .error (.panic payload)
      (guard err body, some spent, txn)

def regolith_txn_discard (txn : TxnInner T) (err : OutParam) :
    Reply Unit × Option T × TxnInner T :=
  match txn.take with
  | (.ok owned, txn) => (guard err (.ok ()), some (OwnedTransaction.rollback owned), txn)
  | (.error (.failure failure), txn) =>
      if failure.status = DISCARDED then (guard err (.ok ()), none, txn)
      else (guard err (fail failure), none, txn)
  | (.error raised, txn) => (guard err (.error raised), none, txn)

def regolith_txn_free (txn : TxnInner T) (err : OutParam) :
    Reply Unit × Option T × TxnInner T :=
  match txn.take with
  | (.ok owned, txn) => (guard err (.ok ()), some (OwnedTransaction.rollback owned), txn)
  | (.error _, txn) => (guard err (.ok ()), none, txn)

end Calls

end Regolith.Ffi
