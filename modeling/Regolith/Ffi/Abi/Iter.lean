import Regolith.Ffi.Abi

-- The iterator entry points (`ffi/src/iter.rs`), over the engine as in `Abi`, and all entry
-- points together.
namespace Regolith.Ffi.Abi

open Program

namespace Iter

def set_source (source : Source Unit Unit Unit) : Body Iter Unit :=
  modify fun it => { it with source := source }

def in_range : Body Iter Bool := do
  let it ← get
  match it.source with
  | .Snapshot () =>
      match ← engine .key with
      | some key => pure (it.bounds.contains key)
      | none => pure false
  | .Txn _ _ current => pure current.isSome

def cursor_valid : Body Iter Bool := do
  match (← get).source with
  | .Txn _ _ _ =>
      panic "internal error: entered unreachable code: cursor_valid is only for the snapshot source"
  | .Snapshot () =>
      if ← engine .valid then in_range
      else
        let status ← engine .status
        checked .of_error status
        pure false

def pull : Body Iter Bool := do
  let it ← get
  match it.source with
  | .Snapshot () =>
      panic "internal error: entered unreachable code: pull is only for the transaction source"
  | .Txn txn none _ =>
      set_source (.Txn txn none none)
      engine .drop
      pure false
  | .Txn txn (some ()) _ =>
      match ← engine .stream_next with
      | some (key, value) =>
          let value := if it.bounds.keys_only then none else some value
          set_source (.Txn txn (some ()) (some ⟨key, value⟩))
          engine .drop
          pure true
      | none =>
          let status ← engine .stream_status
          set_source (.Txn txn (some ()) none)
          engine .drop
          checked .of_error status
          pure false

def rebuild (start end_ : Option Bytes) : Body Iter Unit := do
  let it ← get
  match it.source with
  | .Snapshot () =>
      panic "internal error: entered unreachable code: rebuild is only for the transaction source"
  | .Txn txn _ _ =>
      set_source (.Txn txn none none)
      engine .drop
      with_txn txn (engine (.scan_stream_in start end_ it.bounds.direction))
      set_source (.Txn txn (some ()) none)

def restart_cursor (b : Bounds) : Body Iter Unit := do
  if b.reverse then
    match b.end_ with
    | some end_ =>
        engine (.seek_for_prev end_)
        if ← engine .valid then
          if (← engine .key) = some end_ then engine .prev
    | none => engine .seek_to_last
  else
    match b.start with
    | some start => engine (.seek start)
    | none => engine .seek_to_first

def restart : Body Iter Bool := do
  let it ← get
  match it.source with
  | .Txn _ _ _ =>
      rebuild it.bounds.start it.bounds.end_
      pull
  | .Snapshot () =>
      restart_cursor it.bounds
      cursor_valid

def step : Body Iter Bool := do
  let it ← get
  match it.source with
  | .Txn _ _ _ => pull
  | .Snapshot () =>
      if ← in_range then
        if it.bounds.reverse then engine .prev else engine .next
        cursor_valid
      else pure false

def seek_forward (target : Bytes) : Body Iter Bool := do
  let it ← get
  let clamped := Source.clamp_start it.bounds target
  match it.source with
  | .Txn _ _ _ =>
      rebuild (some clamped) it.bounds.end_
      pull
  | .Snapshot () =>
      engine (.seek clamped)
      cursor_valid

def seek_reverse (target : Bytes) : Body Iter Bool := do
  let it ← get
  match it.source with
  | .Txn _ _ _ =>
      rebuild it.bounds.start (some (Source.reverse_end it.bounds target))
      pull
  | .Snapshot () =>
      if Source.above_end it.bounds target then restart
      else
        engine (.seek_for_prev target)
        cursor_valid

def invalidate_batch : Body Iter Unit := do
  modify fun it => { it with batch_values := [] }
  engine .drop
  modify fun it => { it with batch_count := 0 }

def seek (target : Bytes) : Body Iter Bool := do
  modify fun it => { it with reset := false, pending := none }
  invalidate_batch
  modify fun it => { it with include_current := true }
  if (← get).bounds.reverse then seek_reverse target else seek_forward target

-- What is read of the current entry, by the cursor or of the entry that is kept. `value` is
-- whether that is suppressed under `KeysOnly`.
def current (value : Bool) (cursor : Body Iter (Option Bytes))
    (entry : Entry → Body Iter (Option Bytes)) : Body Iter (Option Bytes) := do
  if value && (← get).bounds.keys_only then pure none
  else if ← in_range then
    match (← get).source with
    | .Snapshot () => cursor
    | .Txn _ _ (some e) => entry e
    | .Txn _ _ none => pure none
  else pure none

def entry_value (e : Entry) : Body Iter (Option Bytes) := do
  engine .view
  pure e.value

def current_key : Body Iter (Option Bytes) :=
  current false (engine .key) fun e => pure (some e.key)

def current_value : Body Iter (Option Bytes) := current true (engine .value) entry_value

def current_value_slice : Body Iter (Option Bytes) :=
  current true (engine .value_slice) entry_value

def advance_in_batch : Body Iter Bool := do
  let it ← get
  if it.reset then
    set { it with reset := false, include_current := false }
    restart
  else if it.include_current then
    set { it with include_current := false }
    in_range
  else step

-- The loop of `regolith_iter_next_batch`, with the rounds left, what was gathered and how
-- many value bytes are retained.
def gather : Nat → KeyBatch → Nat → Body Iter KeyBatch
  | 0, batch, _ => pure batch
  | rounds + 1, batch, retained => do
      match ← attempt advance_in_batch with
      | .error failure =>
          if batch.count = 0 then Err failure
          else
            modify fun it => { it with pending := some failure }
            pure batch
      | .ok false => pure batch
      | .ok true =>
          match ← current_key with
          | none => pure batch
          | some key =>
              if 2 ^ 32 ≤ key.length then Err (.other "key longer than 4 GiB")
              else
                let batch : KeyBatch :=
                  ⟨batch.frame ++ Radix.toLE 4 key.length ++ key, batch.count + 1⟩
                match ← current_value_slice with
                | none => gather rounds batch retained
                | some value =>
                    engine .view
                    modify fun it => { it with batch_values := it.batch_values ++ [value] }
                    let retained := retained + value.length
                    if MAX_BATCH_VALUE_BYTES ≤ retained then pure batch
                    else gather rounds batch retained

end Iter

open Iter

def regolith_iter_next (valid : OutParam) : Body Iter Unit := do
  modify fun it => { it with include_current := false }
  let it ← get
  let is_valid ←
    if it.reset then do
      set { it with reset := false }
      restart
    else step
  out_bool is_valid valid

def regolith_iter_seek (key : InBytes) (valid : OutParam) : Body Iter Unit := do
  let some key := in_bytes key | Err (.invalid_arg "null key")
  let is_valid ← Iter.seek key
  out_bool is_valid valid

def regolith_iter_reset : Body Iter Unit := do
  modify fun it => { it with reset := true, include_current := false, pending := none }
  invalidate_batch

def regolith_iter_key (key key_len : OutParam) : Body Iter Unit := do
  match ← current_key with
  | some current => out_bytes current key key_len
  | none => Err (.code NOT_FOUND)

def regolith_iter_value (val val_len : OutParam) : Body Iter Unit := do
  if ← in_range then
    let value ← current_value
    out_bytes (value.getD []) val val_len
  else Err (.code NOT_FOUND)

def regolith_iter_next_batch (max_entries : Nat) (out out_len out_count : OutParam) :
    Body Iter Unit := do
  if out = .null ∨ out_len = .null ∨ out_count = .null then
    Err (.invalid_arg "null out-param")
  if max_entries = 0 then Err (.invalid_arg "max_entries must be at least 1")
  invalidate_batch
  if let some failure := (← get).pending then
    modify fun it => { it with pending := none }
    Err failure
  let batch ← gather max_entries ⟨[], 0⟩ 0
  modify fun it => { it with batch_count := batch.count }
  write (.count batch.count)
  out_bytes batch.frame out out_len

def regolith_iter_batch_value (idx : Nat) (val val_len : OutParam) : Body Iter Unit := do
  if val = .null ∨ val_len = .null then Err (.invalid_arg "null out-param")
  let it ← get
  if it.batch_count ≤ idx then Err (.invalid_arg "batch value index out of range")
  engine .view
  write (.ptr it.batch_values[idx]?)
  write (.len (it.batch_values[idx]?.getD []).length)

def regolith_iter_close : Body Iter Unit :=
  engine .drop

section Calls

inductive DbCall where
  | close
  | get_borrowed (key : InBytes) (val val_len value_handle : OutParam)
  | has (key : InBytes) (found : OutParam)
  | set (key value : InBytes)
  | delete (key : InBytes)
  | write (ops : InBytes)
  | drop_all
  | iter (opts : Option RegolithIterOptions) (out : OutParam)
  | txn (readonly : UInt8) (out : OutParam)

def DbCall.body : DbCall → Body Unit Unit
  | .close => regolith_db_close
  | .get_borrowed key val val_len value_handle =>
      regolith_db_get_borrowed key val val_len value_handle
  | .has key found => regolith_db_has key found
  | .set key value => regolith_db_set key value
  | .delete key => regolith_db_delete key
  | .write ops => regolith_db_write ops
  | .drop_all => regolith_db_drop_all
  | .iter opts out => regolith_db_iter opts out
  | .txn readonly out => regolith_db_txn readonly out

inductive TxnCall where
  | get_borrowed (key : InBytes) (val val_len value_handle : OutParam)
  | has (key : InBytes) (found : OutParam)
  | set (key value : InBytes)
  | delete (key : InBytes)
  | iter (opts : Option RegolithIterOptions) (out : OutParam)
  | commit
  | discard
  | free

def TxnCall.body : TxnCall → Body (TxnInner Unit) Unit
  | .get_borrowed key val val_len value_handle =>
      regolith_txn_get_borrowed key val val_len value_handle
  | .has key found => regolith_txn_has key found
  | .set key value => regolith_txn_set key value
  | .delete key => regolith_txn_delete key
  | .iter opts out => regolith_txn_iter opts out
  | .commit => regolith_txn_commit
  | .discard => regolith_txn_discard
  | .free => regolith_txn_free

inductive IterCall where
  | next (valid : OutParam)
  | seek (key : InBytes) (valid : OutParam)
  | reset
  | key (key key_len : OutParam)
  | value (val val_len : OutParam)
  | next_batch (max_entries : Nat) (out out_len out_count : OutParam)
  | batch_value (idx : Nat) (val val_len : OutParam)
  | close

def IterCall.body : IterCall → Body Iter Unit
  | .next valid => regolith_iter_next valid
  | .seek target valid => regolith_iter_seek target valid
  | .reset => regolith_iter_reset
  | .key out out_len => regolith_iter_key out out_len
  | .value out out_len => regolith_iter_value out out_len
  | .next_batch max_entries out out_len out_count =>
      regolith_iter_next_batch max_entries out out_len out_count
  | .batch_value idx val val_len => regolith_iter_batch_value idx val val_len
  | .close => regolith_iter_close

-- What an iterator handle may point at: as it was opened, or as calls have left it. The
-- transaction that it shares changes with calls on other handles.
inductive Iter.Reached : Iter → Prop where
  | opened (source : Source Unit Unit Unit) (bounds : Bounds) :
      Reached (.from_source source bounds)
  | called {it it' : Iter} {c : IterCall} {τ : List (Exchange interface)}
      {result : Except Raised Unit} :
      Reached it → Yields (c.body.run.run it) τ (result, it') → Reached it'
  | shared {it : Iter} {txn : TxnInner Unit} :
      Reached it → Reached { it with source := it.source.with_handle txn }

-- A call of an entry point, with all its arguments but `err`: a handle is null or live.
inductive Call where
  | regolith_db_open (path : InBytes) (out : OutParam)
  | regolith_db_open_with_options (path : InBytes) (opts : Option RegolithOptions)
      (out : OutParam)
  | db (db : Option Unit) (c : DbCall)
  | txn (txn : Option (TxnInner Unit)) (c : TxnCall)
  | iter (it : Option { it : Iter // it.Reached }) (c : IterCall)

-- The body of an entry point on what its handle points at.
def Body.on {σ : Type} (body : Body σ Unit) (s : σ) : Prog interface (Except Raised Unit) :=
  (body.run.run s).bind fun (result, _) => .ret result

-- What is passed to `guard`, which has the last word.
def Call.body : Call → Prog interface (Except Raised Unit)
  | .regolith_db_open path out => (Abi.regolith_db_open path out).on ()
  | .regolith_db_open_with_options path opts out =>
      (Abi.regolith_db_open_with_options path opts out).on ()
  | .db none _ => .ret (fail (.invalid_arg "null db handle"))
  | .db (some ()) c => c.body.on ()
  | .txn none _ => .ret (fail (.invalid_arg "null txn handle"))
  | .txn (some inner) c => c.body.on inner
  | .iter none _ => .ret (fail (.invalid_arg "null iterator handle"))
  | .iter (some it) c => c.body.on it.val

end Calls

end Regolith.Ffi.Abi
