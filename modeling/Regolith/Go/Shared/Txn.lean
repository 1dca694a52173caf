import Regolith.Go.Shared

-- `Txn` (`regolith.go`) as goroutines run it: the lock, the flags and the crossings of
-- each method, in order.
namespace Regolith.Go.Shared.Txn

open Ffi Goroutine

-- `closed` is `t.db.closed`, and `t` tells whether `t.t` is not nil.
inductive Flag where
  | closed
  | resolved
  | t
  deriving DecidableEq

inductive Method where
  | Get (key : Bytes)
  | Has (key : Bytes)
  | Set (key value : Bytes)
  | Delete (key : Bytes)
  | NewIter (opts : IterOptions)
  | Commit
  | Discard

inductive FfiCall where
  | regolith_txn_get_borrowed (key : InBytes)
  | regolith_txn_has (key : InBytes)
  | regolith_txn_set (key value : InBytes)
  | regolith_txn_delete (key : InBytes)
  | regolith_txn_iter (opts : RegolithIterOptions)
  | regolith_txn_commit
  | regolith_txn_free

def FfiCall.Reply (σ : Type) : FfiCall → Type
  | .regolith_txn_get_borrowed _ => Ffi.Reply Borrowed
  | .regolith_txn_has _ => Ffi.Reply Bool
  | .regolith_txn_iter _ => Ffi.Reply (RegolithIter σ)
  | .regolith_txn_set _ _ | .regolith_txn_delete _ | .regolith_txn_commit
  | .regolith_txn_free => Ffi.Reply Unit

-- A call of the FFI, on `t.t` as it then is.
structure Crossing where
  t : Bool
  call : FfiCall

abbrev signature (σ : Type) : Signature :=
  ⟨Flag, Crossing, fun c => c.call.Reply σ, Answer σ, Method⟩

abbrev Code (σ : Type) := Prog (signature σ)

variable {σ : Type}

def begin (next : Code σ) : Code σ :=
  .lock .read <| .load .closed fun closed =>
    if closed then .unlock .read (.ret (refuse .ErrClosed))
    else .load .resolved fun resolved =>
      if resolved then .unlock .read (.ret (refuse .ErrDiscarded))
      else next

def cross (call : FfiCall) (next : call.Reply σ → Code σ) : Code σ :=
  .load .t fun t => .call ⟨t, call⟩ next

def Get (key : Bytes) : Code σ :=
  begin <| cross (.regolith_txn_get_borrowed (bytePtr key)) fun reply =>
    .unlock .read (.ret (copyBorrowed reply))

def Has (key : Bytes) : Code σ :=
  begin <| cross (.regolith_txn_has (bytePtr key)) fun (reply : Reply Bool) =>
    .unlock .read (.ret (checked reply fun found => .found (found.getD false)))

def Set (key value : Bytes) : Code σ :=
  begin <| cross (.regolith_txn_set (bytePtr key) (bytePtr value)) fun (reply : Reply Unit) =>
    .unlock .read (.ret (checked reply fun _ => .nothing))

def Delete (key : Bytes) : Code σ :=
  begin <| cross (.regolith_txn_delete (bytePtr key)) fun (reply : Reply Unit) =>
    .unlock .read (.ret (checked reply fun _ => .nothing))

def NewIter (opts : IterOptions) : Code σ :=
  begin <| cross (.regolith_txn_iter (newIterOptions opts)) fun reply =>
    .unlock .read (.ret (.ok ((newIter reply opts).map .iter)))

def Commit : Code σ :=
  .lock .write <| .load .resolved fun resolved =>
    if resolved then .unlock .write (.ret (refuse .ErrDiscarded))
    else .load .closed fun closed =>
      if closed then .unlock .write (.ret (refuse .ErrClosed))
      else cross .regolith_txn_commit fun (reply : Reply Unit) =>
        .store .resolved true <| .store .t false <|
        .unlock .write (.ret (checked reply fun _ => .nothing))

def Discard : Code σ :=
  .lock .write <| .load .resolved fun resolved =>
    if resolved then .unlock .write (.ret (.ok (.ok .nothing)))
    else cross .regolith_txn_free fun _ =>
      .store .resolved true <| .store .t false <|
      .unlock .write (.ret (.ok (.ok .nothing)))

-- A transaction as `DB.NewTxn` returns it. `DB.Close` raises `closed` at any moment.
def object (σ : Type) : Object (signature σ) where
  body
    | .Get key => Get key
    | .Has key => Has key
    | .Set key value => Set key value
    | .Delete key => Delete key
    | .NewIter opts => NewIter opts
    | .Commit => Commit
    | .Discard => Discard
  flags
    | .t => true
    | _ => false
  outside
    | .closed => true
    | _ => false

end Regolith.Go.Shared.Txn
