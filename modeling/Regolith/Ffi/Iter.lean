import Regolith.Ffi.Source

-- Iterator entry points (`ffi/src/iter.rs`), over any source of entries.
namespace Regolith.Ffi

-- How many value bytes one batch may keep referenced.
def MAX_BATCH_VALUE_BYTES : Nat := 2 ^ 20

structure RegolithIter (σ : Type) where
  bounds : Bounds
  source : σ
  reset : Bool
  include_current : Bool
  batch_values : List Bytes
  batch_count : Nat
  pending : Option Failure

-- What `regolith_iter_next_batch` hands over.
structure KeyBatch where
  frame : Bytes
  count : Nat
  deriving DecidableEq

namespace RegolithIter

variable {σ : Type} [EntrySource σ]

def from_source (source : σ) (bounds : Bounds) : RegolithIter σ :=
  ⟨bounds, source, true, false, [], 0, none⟩

-- Run a move of the source, keeping the moved source whatever it returns.
def on_source (it : RegolithIter σ) (move : σ → Except Raised Bool × σ) :
    Except Raised Bool × RegolithIter σ :=
  ((move it.source).1, { it with source := (move it.source).2 })

def restart (it : RegolithIter σ) : Except Raised Bool × RegolithIter σ :=
  it.on_source (EntrySource.restart it.bounds)

def step (it : RegolithIter σ) : Except Raised Bool × RegolithIter σ :=
  it.on_source (EntrySource.step it.bounds)

def in_range (it : RegolithIter σ) : Bool :=
  EntrySource.in_range it.bounds it.source

def invalidate_batch (it : RegolithIter σ) : RegolithIter σ :=
  { it with batch_values := [], batch_count := 0 }

def seek (it : RegolithIter σ) (target : Bytes) : Except Raised Bool × RegolithIter σ :=
  let it := { it.invalidate_batch with reset := false, pending := none, include_current := true }
  if it.bounds.reverse then it.on_source (EntrySource.seek_reverse it.bounds target)
  else it.on_source (EntrySource.seek_forward it.bounds target)

def current_key (it : RegolithIter σ) : Option Bytes :=
  if it.in_range then EntrySource.key it.source else none

def current_value (it : RegolithIter σ) : Option Bytes :=
  if it.bounds.keys_only || !it.in_range then none else EntrySource.value it.source

def current_value_slice (it : RegolithIter σ) : Option Bytes :=
  if it.bounds.keys_only || !it.in_range then none else EntrySource.value_slice it.source

-- The move of `regolith_iter_next`, which ignores a seek's pending position.
def advance (it : RegolithIter σ) : Except Raised Bool × RegolithIter σ :=
  let it := { it with include_current := false }
  if it.reset then { it with reset := false }.restart else it.step

-- Move onto the entry that the next round of a batch frames.
def advance_in_batch (it : RegolithIter σ) : Except Raised Bool × RegolithIter σ :=
  if it.reset then { it with reset := false, include_current := false }.restart
  else if it.include_current then (.ok it.in_range, { it with include_current := false })
  else it.step

-- The loop of `regolith_iter_next_batch`, with the rounds left, what was gathered
-- and how many value bytes are retained.
def gather : Nat → KeyBatch → Nat → RegolithIter σ → Except Raised KeyBatch × RegolithIter σ
  | 0, batch, _, it => (.ok batch, it)
  | rounds + 1, batch, retained, it =>
      match it.advance_in_batch with
      | (.error (.panic payload), it) => (.error (.panic payload), it)
      | (.error (.failure failure), it) =>
          if batch.count = 0 then (fail failure, it)
          -- Held back, so that what was gathered is not lost.
          else (.ok batch, { it with pending := some failure })
      | (.ok false, it) => (.ok batch, it)
      | (.ok true, it) =>
          match it.current_key with
          | none => (.ok batch, it)
          | some key =>
              if 2 ^ 32 ≤ key.length then (fail (.other "key longer than 4 GiB"), it)
              else
                let batch :=
                  ⟨batch.frame ++ Radix.toLE 4 key.length ++ key, batch.count + 1⟩
                match it.current_value_slice with
                | none => gather rounds batch retained it
                | some value =>
                    let it := { it with batch_values := it.batch_values ++ [value] }
                    let retained := retained + value.length
                    if MAX_BATCH_VALUE_BYTES ≤ retained then (.ok batch, it)
                    else gather rounds batch retained it

end RegolithIter

section Calls

variable {σ : Type} [EntrySource σ]

def regolith_iter_next (it : RegolithIter σ) (valid err : OutParam) :
    Reply Bool × RegolithIter σ :=
  let (result, it) := it.advance
  (guard err (result.bind (out_bool · valid)), it)

def regolith_iter_seek (it : RegolithIter σ) (key : InBytes) (valid err : OutParam) :
    Reply Bool × RegolithIter σ :=
  match in_bytes key with
  | none => (guard err (fail (.invalid_arg "null key")), it)
  | some key =>
      let (result, it) := it.seek key
      (guard err (result.bind (out_bool · valid)), it)

def regolith_iter_reset (it : RegolithIter σ) (err : OutParam) : Reply Unit × RegolithIter σ :=
  let it := { it with reset := true, include_current := false, pending := none }
  (guard err (.ok ()), it.invalidate_batch)

def regolith_iter_key (it : RegolithIter σ) (key key_len err : OutParam) : Reply Bytes :=
  match it.current_key with
  | some current => guard err (out_bytes current key key_len)
  | none => guard err (fail (.code NOT_FOUND))

def regolith_iter_value (it : RegolithIter σ) (val val_len err : OutParam) : Reply Bytes :=
  if !it.in_range then guard err (fail (.code NOT_FOUND))
  else guard err (out_bytes (it.current_value.getD []) val val_len)

def regolith_iter_next_batch (it : RegolithIter σ) (max_entries : Nat)
    (out out_len out_count err : OutParam) : Reply KeyBatch × RegolithIter σ :=
  if out = .null ∨ out_len = .null ∨ out_count = .null then
    (guard err (fail (.invalid_arg "null out-param")), it)
  else if max_entries = 0 then
    (guard err (fail (.invalid_arg "max_entries must be at least 1")), it)
  else
    let it := it.invalidate_batch
    match it.pending with
    | some failure => (guard err (fail failure), { it with pending := none })
    | none =>
        match it.gather max_entries ⟨[], 0⟩ 0 with
        | (.error raised, it) => (guard err (.error raised), it)
        | (.ok batch, it) => (guard err (.ok batch), { it with batch_count := batch.count })

-- The value is lent: a null pointer when nothing was retained at the index.
def regolith_iter_batch_value (it : RegolithIter σ) (idx : Nat) (val val_len err : OutParam) :
    Reply (Option Bytes) :=
  if val = .null ∨ val_len = .null then guard err (fail (.invalid_arg "null out-param"))
  else if it.batch_count ≤ idx then
    guard err (fail (.invalid_arg "batch value index out of range"))
  else guard err (.ok it.batch_values[idx]?)

end Calls

section Opening

variable {C T S : Type}

def RegolithIter.over_snapshot (T S : Type) (cursor : C) (bounds : Bounds) :
    RegolithIter (Source C T S) :=
  .from_source (.Snapshot cursor) bounds

-- A transaction that is already resolved is turned away here.
def RegolithIter.over_txn (C S : Type) (txn : TxnInner T) (bounds : Bounds) :
    Except Raised (RegolithIter (Source C T S)) × TxnInner T :=
  match txn.with_txn fun t => (.ok (), t) with
  | (.error raised, txn) => (.error raised, txn)
  | (.ok (), txn) => (.ok (.from_source (.Txn txn none none) bounds), txn)

def regolith_txn_iter (C S : Type) (txn : TxnInner T) (opts : Option RegolithIterOptions)
    (out err : OutParam) : Reply (RegolithIter (Source C T S)) × TxnInner T :=
  if out = .null then (guard err (fail (.invalid_arg "null out-param")), txn)
  else
    let (result, txn) := RegolithIter.over_txn C S txn (bounds_from opts)
    (guard err result, txn)

end Opening

end Regolith.Ffi
