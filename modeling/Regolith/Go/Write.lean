import Regolith.Ffi.Batch
import Regolith.Go.Errors
import Regolith.Go.WriteBatch

-- A batched write, from `DB.Write` (`regolith.go`) through `regolith_db_write`
-- (`ffi/src/db.rs`) to the engine.
namespace Regolith

-- The engine's store, as far as a batched write and its effect go. `contents`
-- is what a read at any key would return.
class StoreEngine (St : Type) where
  write : St → Ffi.EngineBatch → Except Ffi.EngineError Unit × St
  contents : St → Bytes → Option Bytes

namespace Ffi

variable {St : Type} [StoreEngine St]

def regolith_db_write (db : Option St) (ops : InBytes) (err : OutParam) : Reply Unit × Option St :=
  match db with
  | none => (guard err (fail (.invalid_arg "null db handle")), none)
  | some store =>
      match in_bytes ops with
      | none => (guard err (fail (.invalid_arg "null write batch")), some store)
      | some frame =>
          match decode frame with
          | .error fault => (guard err (fail fault.failure), some store)
          | .ok batch =>
              match StoreEngine.write store batch with
              | (.error error, store) => (guard err (fail (.of_error error)), some store)
              | (.ok (), store) => (guard err (.ok ()), some store)

end Ffi

namespace Go

-- `closeLk` is not part of the value: a single call holds its read side throughout.
structure DB (St : Type) where
  db : Option St
  closed : Bool

variable {St : Type} [StoreEngine St]

-- The batch is a pointer, nil or not, so it is part of what the call hands back.
def DB.Write (db : DB St) (b : Option WriteBatch) :
    Option GoError × DB St × Option WriteBatch :=
  if db.closed then (some (.bare .ErrClosed), db, b)
  else
    match b with
    | none => (none, db, none)
    | some batch =>
        if batch.n = 0 then (none, db, some batch)
        else
          let (reply, handle) := Ffi.regolith_db_write db.db (bytePtr batch.buf) .writable
          (statusToErr reply.status reply.err, { db with db := handle }, some batch)

def DB.contents (db : DB St) (key : Bytes) : Option Bytes :=
  match db.db with
  | none => none
  | some store => StoreEngine.contents store key

-- A database between `Open` and `Close`.
structure DB.IsOpen (db : DB St) : Prop where
  not_closed : db.closed = false
  live : db.db.isSome

-- The calls that fill a batch.
inductive BatchCall where
  | Set (key value : Bytes)
  | Delete (key : Bytes)
  | Reset

def BatchCall.apply (b : WriteBatch) : BatchCall → WriteBatch
  | .Set key value => b.Set key value
  | .Delete key => b.Delete key
  | .Reset => b.Reset

def fill (b : WriteBatch) (calls : List BatchCall) : WriteBatch :=
  calls.foldl BatchCall.apply b

end Go

end Regolith
