import Regolith.Ffi.Iter
import Regolith.Ffi.Options
import Regolith.Library.Program

-- The entry points (`ffi/src/lib.rs`, `db.rs`, `txn.rs`) by the calls they make of the engine,
-- any of which may panic, and the out-params they write, in order.
namespace Regolith.Ffi.Abi

open Program

-- What an entry point asks of the engine object behind its handle. `fill` is all that decoding
-- a frame puts in a batch, `view` a method of a slice, and `drop` the destructor of anything
-- that the engine handed out.
inductive EngineCall where
  | default_options
  | open_ (path : String) (options : Options Unit)
  | with_isolation (isolation : IsolationLevel)
  | close
  | get_slice (key : Bytes)
  | has (key : Bytes)
  | put (key value : Bytes)
  | delete (key : Bytes)
  | fill (frame : Bytes)
  | write (batch : EngineBatch)
  | drop_all
  | snapshot_iter
  | isolation
  | begin_transaction_owned (isolation : IsolationLevel)
  | txn_get_slice (key : Bytes)
  | txn_put (key value : Bytes)
  | txn_delete (key : Bytes)
  | scan_stream_in (start end_ : Option Bytes) (direction : ScanDirection)
  | commit
  | rollback
  | seek (target : Bytes)
  | seek_for_prev (target : Bytes)
  | seek_to_first
  | seek_to_last
  | next
  | prev
  | valid
  | key
  | value
  | value_slice
  | status
  | stream_next
  | stream_status
  | view
  | drop

abbrev EngineCall.Reply : EngineCall → Type
  | .default_options => ResolvedOptions Unit
  | .open_ _ _ | .close | .put _ _ | .delete _ | .write _ | .drop_all | .status
  | .stream_status => Except EngineError Unit
  | .isolation => IsolationLevel
  | .get_slice _ => Except EngineError (Option Bytes)
  | .has _ => Except EngineError Bool
  | .txn_get_slice _ => Except TxnOpError (Option Bytes)
  | .txn_put _ _ | .txn_delete _ => Except TxnOpError Unit
  | .commit => Except TransactionError Unit
  | .valid => Bool
  | .key | .value | .value_slice => Option Bytes
  | .stream_next => Option (Bytes × Bytes)
  | .with_isolation _ | .fill _ | .snapshot_iter | .begin_transaction_owned _
  | .scan_stream_in _ _ _ | .rollback | .seek _ | .seek_for_prev _ | .seek_to_first
  | .seek_to_last | .next | .prev | .view | .drop => Unit

-- The engine's own part of an iterator is not kept here.
abbrev Iter := RegolithIter (Source Unit Unit Unit)

-- A store to an out-param other than `err`.
inductive Write where
  | db
  | txn (inner : TxnInner Unit)
  | iter (it : Iter)
  | flag (value : Bool)
  | ptr (bytes : Option Bytes)
  | len (len : Nat)
  | value_handle (slice : Option Bytes)
  | count (count : Nat)

inductive Act where
  | engine (c : EngineCall)
  | write (w : Write)

abbrev Act.Reply : Act → Type
  | .engine c => Except Payload c.Reply
  | .write _ => Unit

abbrev interface : Interface := ⟨Act, Act.Reply⟩

-- The body of an entry point, over what its handle points at.
abbrev Body (σ : Type) := StateCode interface Raised σ

section Body

variable {σ α ε : Type}

def Err (failure : Failure) : Body σ α := throw (.failure failure)

def panic (message : String) : Body σ α := throw (.panic (.text message))

def act (a : Act) : Body σ a.Reply := StateCode.call (I := interface) a

def engine (c : EngineCall) : Body σ c.Reply := do
  match ← act (.engine c) with
  | .ok reply => pure reply
  | .error payload => throw (.panic payload)

def write (w : Write) : Body σ Unit := act (.write w)

-- `result?`, where an error is converted on its way out.
def checked (convert : ε → Failure) (result : Except ε α) : Body σ α :=
  match result with
  | .ok value => pure value
  | .error error => Err (convert error)

-- `match body { Ok(..) => .., Err(..) => .. }`: a panic is not caught.
def attempt (body : Body σ α) : Body σ (Except Failure α) :=
  body.followed fun
    | .ok value => pure (.ok value)
    | .error (.failure failure) => pure (.error failure)
    | .error (.panic payload) => throw (.panic payload)

-- A handle taken back from the caller, and dropped when `body` ends: a second panic would
-- not return at all.
def dropping (body : Body σ α) : Body σ α := do
  let result ← attempt body
  engine .drop
  checked id result

def out_bytes (bytes : Bytes) (out_ptr out_len : OutParam) : Body σ Unit := do
  if out_ptr = .null ∨ out_len = .null then Err (.invalid_arg "null out-param")
  write (.ptr (some bytes))
  write (.len bytes.length)

def out_borrowed (slice : Bytes) (out_ptr out_len out_handle : OutParam) : Body σ Unit := do
  if out_ptr = .null ∨ out_len = .null ∨ out_handle = .null then
    engine .drop
    Err (.invalid_arg "null out-param")
  engine .view
  if slice.isEmpty then
    write (.ptr none)
    write (.len 0)
    write (.value_handle none)
  else
    write (.ptr (some slice))
    write (.len slice.length)
    write (.value_handle (some slice))

def out_bool (value : Bool) (out : OutParam) : Body σ Unit := do
  if out = .null then Err (.invalid_arg "null out-param")
  write (.flag value)

def from_utf8 (bytes : Bytes) : Option String :=
  String.fromUTF8? ⟨bytes.toArray⟩

end Body

section Db

def regolith_db_open_with_options (path : InBytes) (opts : Option RegolithOptions)
    (out : OutParam) : Body Unit Unit := do
  if out = .null then Err (.invalid_arg "null out-param")
  let some bytes := in_bytes path | Err (.invalid_arg "null path")
  let some path := from_utf8 bytes | Err (.invalid_arg "path is not valid utf-8")
  let defaults ← engine .default_options
  let options ← checked id (options_from defaults opts)
  let result ← engine (.open_ path options.engine)
  checked .of_error result
  engine (.with_isolation options.isolation)
  write .db

def regolith_db_open (path : InBytes) (out : OutParam) : Body Unit Unit :=
  regolith_db_open_with_options path none out

def regolith_db_close : Body Unit Unit :=
  dropping do
    let result ← engine .close
    checked .of_error result

def regolith_db_get_borrowed (key : InBytes) (val val_len value_handle : OutParam) :
    Body Unit Unit := do
  let some key := in_bytes key | Err (.invalid_arg "null key")
  let result ← engine (.get_slice key)
  let some slice ← checked .of_error result | Err (.code NOT_FOUND)
  out_borrowed slice val val_len value_handle

def regolith_db_has (key : InBytes) (found : OutParam) : Body Unit Unit := do
  let some key := in_bytes key | Err (.invalid_arg "null key")
  let result ← engine (.has key)
  let found_value ← checked .of_error result
  out_bool found_value found

def regolith_db_set (key value : InBytes) : Body Unit Unit := do
  let (some key, some value) := (in_bytes key, in_bytes value)
    | Err (.invalid_arg "null key or value")
  let result ← engine (.put key value)
  checked .of_error result

def regolith_db_delete (key : InBytes) : Body Unit Unit := do
  let some key := in_bytes key | Err (.invalid_arg "null key")
  let result ← engine (.delete key)
  checked .of_error result

def regolith_db_write (ops : InBytes) : Body Unit Unit := do
  let some frame := in_bytes ops | Err (.invalid_arg "null write batch")
  -- The batch is filled as it is decoded, so a panic may come before an op that is refused.
  engine (.fill frame)
  let batch ← checked OpFault.failure (decode frame)
  let result ← engine (.write batch)
  checked .of_error result

def regolith_db_drop_all : Body Unit Unit := do
  let result ← engine .drop_all
  checked .of_error result

def regolith_db_iter (opts : Option RegolithIterOptions) (out : OutParam) : Body Unit Unit := do
  if out = .null then Err (.invalid_arg "null out-param")
  engine .snapshot_iter
  write (.iter (.over_snapshot Unit Unit () (bounds_from opts)))

def regolith_db_txn (readonly : UInt8) (out : OutParam) : Body Unit Unit := do
  if out = .null then Err (.invalid_arg "null out-param")
  let isolation ← engine .isolation
  engine (.begin_transaction_owned isolation)
  write (.txn (.new () (readonly != 0)))

end Db

section Txn

-- `TxnInner::with`. A panic in `body` does not poison the lock, which is read-locked.
def with_txn {σ α : Type} (inner : TxnInner Unit) (body : Body σ α) : Body σ α :=
  if inner.txn.poisoned then Err unusable
  else
    match inner.txn.value with
    | some () => body
    | none => Err (.code DISCARDED)

def take : Body (TxnInner Unit) Unit := do
  let inner ← get
  set inner.take.2
  match inner.take.1 with
  | .ok () => pure ()
  | .error raised => throw raised

def regolith_txn_get_borrowed (key : InBytes) (val val_len value_handle : OutParam) :
    Body (TxnInner Unit) Unit := do
  let some key := in_bytes key | Err (.invalid_arg "null key")
  let result ← with_txn (← get) (engine (.txn_get_slice key))
  let some slice ← checked .of_op_error result | Err (.code NOT_FOUND)
  out_borrowed slice val val_len value_handle

def regolith_txn_has (key : InBytes) (found : OutParam) : Body (TxnInner Unit) Unit := do
  let some key := in_bytes key | Err (.invalid_arg "null key")
  let result ← with_txn (← get) do
    let result ← engine (.txn_get_slice key)
    engine .drop
    pure result
  let slice ← checked .of_op_error result
  out_bool slice.isSome found

def regolith_txn_set (key value : InBytes) : Body (TxnInner Unit) Unit := do
  if (← get).readonly then Err (.code READ_ONLY_TXN)
  let (some key, some value) := (in_bytes key, in_bytes value)
    | Err (.invalid_arg "null key or value")
  let result ← with_txn (← get) (engine (.txn_put key value))
  checked .of_op_error result

def regolith_txn_delete (key : InBytes) : Body (TxnInner Unit) Unit := do
  if (← get).readonly then Err (.code READ_ONLY_TXN)
  let some key := in_bytes key | Err (.invalid_arg "null key")
  let result ← with_txn (← get) (engine (.txn_delete key))
  checked .of_op_error result

def regolith_txn_iter (opts : Option RegolithIterOptions) (out : OutParam) :
    Body (TxnInner Unit) Unit := do
  if out = .null then Err (.invalid_arg "null out-param")
  let inner ← get
  with_txn inner (pure ())
  write (.iter (.from_source (.Txn inner none none) (bounds_from opts)))

def regolith_txn_commit : Body (TxnInner Unit) Unit :=
  dropping do
    take
    let result ← engine .commit
    checked .of_transaction_error result

def regolith_txn_discard : Body (TxnInner Unit) Unit := do
  match ← attempt take with
  | .ok () => engine .rollback
  | .error failure => if failure.status = DISCARDED then pure () else Err failure

def regolith_txn_free : Body (TxnInner Unit) Unit :=
  dropping do
    match ← attempt take with
    | .ok () => engine .rollback
    | .error _ => pure ()

end Txn

end Regolith.Ffi.Abi
