import Regolith.Go.Shared
import Regolith.Go.WriteBatch

-- `DB` (`regolith.go`) as goroutines run it. The handle `db.db` is never unset.
namespace Regolith.Go.Shared.DB

open Ffi Goroutine

inductive Flag where
  | closed
  deriving DecidableEq

inductive Method where
  | Get (key : Bytes)
  | Has (key : Bytes)
  | Set (key value : Bytes)
  | Delete (key : Bytes)
  | Write (b : Option WriteBatch)
  | DropAll
  | NewIter (opts : IterOptions)
  | NewTxn (readOnly : Bool)
  | Close

-- The calls of the FFI that take the store handle.
inductive FfiCall where
  | regolith_db_get_borrowed (key : InBytes)
  | regolith_db_has (key : InBytes)
  | regolith_db_set (key value : InBytes)
  | regolith_db_delete (key : InBytes)
  | regolith_db_write (ops : InBytes)
  | regolith_db_drop_all
  | regolith_db_iter (opts : RegolithIterOptions)
  | regolith_db_txn (readonly : UInt8)
  | regolith_db_close

def FfiCall.Reply (σ : Type) : FfiCall → Type
  | .regolith_db_get_borrowed _ => Ffi.Reply Borrowed
  | .regolith_db_has _ => Ffi.Reply Bool
  | .regolith_db_iter _ => Ffi.Reply (RegolithIter σ)
  | .regolith_db_set _ _ | .regolith_db_delete _ | .regolith_db_write _ | .regolith_db_drop_all
  | .regolith_db_txn _ | .regolith_db_close => Ffi.Reply Unit

abbrev signature (σ : Type) : Signature := ⟨Flag, FfiCall, FfiCall.Reply σ, Answer σ, Method⟩

abbrev Code (σ : Type) := Prog (signature σ)

variable {σ : Type}

-- How every method but `Close` begins: the read side, until it returns, and the flag.
def opened (next : Code σ) : Code σ :=
  .lock .read <| .load .closed fun closed =>
    if closed then .unlock .read (.ret (refuse .ErrClosed)) else next

def Get (key : Bytes) : Code σ :=
  opened <| .call (.regolith_db_get_borrowed (bytePtr key)) fun reply =>
    .unlock .read (.ret (copyBorrowed reply))

def Has (key : Bytes) : Code σ :=
  opened <| .call (.regolith_db_has (bytePtr key)) fun (reply : Reply Bool) =>
    .unlock .read (.ret (checked reply fun found => .found (found.getD false)))

def Set (key value : Bytes) : Code σ :=
  opened <| .call (.regolith_db_set (bytePtr key) (bytePtr value)) fun (reply : Reply Unit) =>
    .unlock .read (.ret (checked reply fun _ => .nothing))

def Delete (key : Bytes) : Code σ :=
  opened <| .call (.regolith_db_delete (bytePtr key)) fun (reply : Reply Unit) =>
    .unlock .read (.ret (checked reply fun _ => .nothing))

def Write (b : Option WriteBatch) : Code σ :=
  opened <|
    match b with
    | none => .unlock .read (.ret (.ok (.ok .nothing)))
    | some batch =>
        if batch.n = 0 then .unlock .read (.ret (.ok (.ok .nothing)))
        else
          .call (.regolith_db_write (bytePtr batch.buf)) fun (reply : Reply Unit) =>
            .unlock .read (.ret (checked reply fun _ => .nothing))

def DropAll : Code σ :=
  opened <| .call .regolith_db_drop_all fun (reply : Reply Unit) =>
    .unlock .read (.ret (checked reply fun _ => .nothing))

def NewIter (opts : IterOptions) : Code σ :=
  opened <| .call (.regolith_db_iter (newIterOptions opts)) fun reply =>
    .unlock .read (.ret (.ok ((newIter reply opts).map .iter)))

def NewTxn (readOnly : Bool) : Code σ :=
  opened <| .call (.regolith_db_txn (cBool readOnly)) fun (reply : Reply Unit) =>
    .unlock .read (.ret (checked reply fun _ => .txn))

def Close : Code σ :=
  .lock .write <| .compareAndSwap .closed false true fun swapped =>
    if !swapped then .unlock .write (.ret (.ok (.ok .nothing)))
    else
      .call .regolith_db_close fun (reply : Reply Unit) =>
        .unlock .write (.ret (checked reply fun _ => .nothing))

-- A store as `OpenWith` returns it.
def object (σ : Type) : Object (signature σ) where
  body
    | .Get key => Get key
    | .Has key => Has key
    | .Set key value => Set key value
    | .Delete key => Delete key
    | .Write b => Write b
    | .DropAll => DropAll
    | .NewIter opts => NewIter opts
    | .NewTxn readOnly => NewTxn readOnly
    | .Close => Close
  flags _ := false
  outside _ := false

end Regolith.Go.Shared.DB
