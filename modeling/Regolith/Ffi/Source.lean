import Regolith.Ffi.Bounds
import Regolith.Ffi.Txn

-- Where an iterator's entries come from (`ffi/src/iter.rs`).
namespace Regolith.Ffi

-- What the rest of the iterator asks of a source. A move tells whether it stands on
-- an entry of the range, and leaves the source moved whatever it returns.
class EntrySource (σ : Type) where
  restart : Bounds → σ → Except Raised Bool × σ
  step : Bounds → σ → Except Raised Bool × σ
  seek_forward : Bounds → Bytes → σ → Except Raised Bool × σ
  seek_reverse : Bounds → Bytes → σ → Except Raised Bool × σ
  in_range : Bounds → σ → Bool
  key : σ → Option Bytes
  value : σ → Option Bytes
  value_slice : σ → Option Bytes

structure Entry where
  key : Bytes
  value : Option Bytes
  deriving DecidableEq

inductive Source (C T S : Type) where
  | Snapshot (cursor : C)
  | Txn (txn : TxnInner T) (stream : Option S) (current : Option Entry)

namespace Source

section Handle

variable {C T S : Type}

def handle : Source C T S → Option (TxnInner T)
  | .Snapshot _ => none
  | .Txn txn _ _ => some txn

-- The transaction handle as other calls have left it.
def with_handle (txn : TxnInner T) : Source C T S → Source C T S
  | .Snapshot cursor => .Snapshot cursor
  | .Txn _ stream current => .Txn txn stream current

end Handle

variable {C T S : Type} [OwnedSnapshotIter C] [TxnScanStream S] [OwnedTransaction T S]

open OwnedSnapshotIter

section Snapshot

def cursor_in_range (b : Bounds) (cursor : C) : Bool :=
  match key cursor with
  | some key => b.contains key
  | none => false

def cursor_valid (b : Bounds) (cursor : C) : Except Raised Bool :=
  if valid cursor then .ok (cursor_in_range b cursor)
  else
    match status cursor with
    | .ok () => .ok false
    | .error error => fail (.of_error error)

-- A move of the cursor, and the check every one of them ends with.
def moved (b : Bounds) (cursor : C) : Except Raised Bool × Source C T S :=
  (cursor_valid b cursor, .Snapshot cursor)

def restart_cursor (b : Bounds) (cursor : C) : C :=
  if b.reverse then
    match b.end_ with
    -- `end` is exclusive, so a reverse walk begins strictly below it.
    | some end_ =>
        let cursor := seek_for_prev cursor end_
        if valid cursor && key cursor == some end_ then prev cursor else cursor
    | none => seek_to_last cursor
  else
    match b.start with
    | some start => seek cursor start
    | none => seek_to_first cursor

def step_cursor (b : Bounds) (cursor : C) : C :=
  if b.reverse then prev cursor else next cursor

end Snapshot

section Txn

def pull (b : Bounds) (txn : TxnInner T) (stream : Option S) :
    Except Raised Bool × Source C T S :=
  match stream with
  | none => (.ok false, .Txn txn none none)
  | some stream =>
      match TxnScanStream.next stream with
      | (some (key, value), stream) =>
          (.ok true, .Txn txn (some stream) (some ⟨key, if b.keys_only then none else some value⟩))
      | (none, stream) =>
          match TxnScanStream.status stream with
          | .ok () => (.ok false, .Txn txn (some stream) none)
          | .error error => (fail (.of_error error), .Txn txn (some stream) none)

-- `rebuild`, and the `pull` that each of its callers goes on with. The old stream
-- and entry are dropped first, so a failed rebuild leaves neither.
def rebuild (b : Bounds) (start end_ : Option Bytes) (txn : TxnInner T) :
    Except Raised Bool × Source C T S :=
  match txn.with_txn (OwnedTransaction.scan_stream_in · start end_ b.direction) with
  | (.error raised, txn) => (.error raised, .Txn txn none none)
  | (.ok fresh, txn) => pull b txn (some fresh)

end Txn

def in_range (b : Bounds) : Source C T S → Bool
  | .Snapshot cursor => cursor_in_range b cursor
  | .Txn _ _ current => current.isSome

def restart (b : Bounds) : Source C T S → Except Raised Bool × Source C T S
  | .Txn txn _ _ => rebuild b b.start b.end_ txn
  | .Snapshot cursor => moved b (restart_cursor b cursor)

def step (b : Bounds) : Source C T S → Except Raised Bool × Source C T S
  | .Txn txn stream _ => pull b txn stream
  | .Snapshot cursor =>
      if cursor_in_range b cursor then moved b (step_cursor b cursor)
      else (.ok false, .Snapshot cursor)

-- A target under `start` becomes `start`.
def clamp_start (b : Bounds) (target : Bytes) : Bytes :=
  match b.start with
  | some start => if target < start then start else target
  | none => target

def seek_forward (b : Bounds) (target : Bytes) : Source C T S → Except Raised Bool × Source C T S
  | .Txn txn _ _ => rebuild b (some (clamp_start b target)) b.end_ txn
  | .Snapshot cursor => moved b (seek cursor (clamp_start b target))

def above_end (b : Bounds) (target : Bytes) : Bool :=
  match b.end_ with
  | some end_ => decide (end_ ≤ target)
  | none => false

-- The stream's bound is exclusive: to include the target it is the target with a
-- zero byte appended.
def reverse_end (b : Bounds) (target : Bytes) : Bytes :=
  match b.end_ with
  | some end_ => if above_end b target then end_ else target ++ [0]
  | none => target ++ [0]

def seek_reverse (b : Bounds) (target : Bytes) : Source C T S → Except Raised Bool × Source C T S
  | .Txn txn _ _ => rebuild b b.start (some (reverse_end b target)) txn
  | .Snapshot cursor =>
      if above_end b target then moved b (restart_cursor b cursor)
      else moved b (seek_for_prev cursor target)

instance : EntrySource (Source C T S) where
  restart := restart
  step := step
  seek_forward := seek_forward
  seek_reverse := seek_reverse
  in_range := in_range
  key
    | .Snapshot cursor => key cursor
    | .Txn _ _ current => current.map (·.key)
  value
    | .Snapshot cursor => value cursor
    | .Txn _ _ current => current.bind (·.value)
  value_slice
    | .Snapshot cursor => value_slice cursor
    | .Txn _ _ current => current.bind (·.value)

section Instance

variable (b : Bounds) (target : Bytes) (source : Source C T S)

@[simp] theorem entrySource_restart : EntrySource.restart b source = source.restart b := rfl

@[simp] theorem entrySource_step : EntrySource.step b source = source.step b := rfl

@[simp] theorem entrySource_seek_forward :
    EntrySource.seek_forward b target source = source.seek_forward b target := rfl

@[simp] theorem entrySource_seek_reverse :
    EntrySource.seek_reverse b target source = source.seek_reverse b target := rfl

@[simp] theorem entrySource_in_range : EntrySource.in_range b source = source.in_range b := rfl

end Instance

end Source

end Regolith.Ffi
