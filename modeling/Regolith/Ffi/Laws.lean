import Regolith.Ffi.Listing

-- What the iterator relies on the engine for. `faulty` is whether reads may fail.
namespace Regolith.Ffi

section Cursor

variable {C : Type} [OwnedSnapshotIter C]

open OwnedSnapshotIter

-- On an entry, or on none: unpositioned, or past either end.
structure StandsOn (cursor : C) (entry : Option Item) : Prop where
  valid : valid cursor = entry.isSome
  key : key cursor = entry.map (·.key)
  value : value cursor = entry.map (·.value)
  value_slice : value_slice cursor = entry.map (·.value)
  status : status cursor = .ok ()

structure Failed (cursor : C) : Prop where
  valid : valid cursor = false
  key : key cursor = none
  status : ∃ error, status cursor = .error error

-- Where a move meant for `entry` leaves the cursor.
def MovesTo (faulty : Prop) (cursor : C) (entry : Option Item) : Prop :=
  StandsOn cursor entry ∨ faulty ∧ Failed cursor

theorem StandsOn.movesTo {faulty : Prop} {cursor : C} {entry : Option Item}
    (h : StandsOn cursor entry) : MovesTo faulty cursor entry := .inl h

theorem Failed.movesTo {faulty : Prop} {cursor : C} {entry : Option Item} (h : Failed cursor)
    (hfaulty : faulty) : MovesTo faulty cursor entry := .inr ⟨hfaulty, h⟩

-- An ordinary cursor. `entries` are those of the snapshot it is over.
structure CursorLaws (entries : C → List Item) (faulty : Prop) : Prop where
  ascending : ∀ c, Ascending (entries c)
  entries_seek : ∀ c target, entries (seek c target) = entries c
  entries_seek_for_prev : ∀ c target, entries (seek_for_prev c target) = entries c
  entries_seek_to_first : ∀ c, entries (seek_to_first c) = entries c
  entries_seek_to_last : ∀ c, entries (seek_to_last c) = entries c
  entries_next : ∀ c, entries (next c) = entries c
  entries_prev : ∀ c, entries (prev c) = entries c
  seek : ∀ c target, MovesTo faulty (seek c target) ((entries c).find? (target ≤ ·.key))
  seek_for_prev : ∀ c target,
    MovesTo faulty (seek_for_prev c target) ((entries c).reverse.find? (·.key ≤ target))
  seek_to_first : ∀ c, MovesTo faulty (seek_to_first c) (entries c).head?
  seek_to_last : ∀ c, MovesTo faulty (seek_to_last c) (entries c).getLast?
  next : ∀ c x, StandsOn c (some x) →
    MovesTo faulty (next c) ((entries c).find? (x.key < ·.key))
  prev : ∀ c x, StandsOn c (some x) →
    MovesTo faulty (prev c) ((entries c).reverse.find? (·.key < x.key))

end Cursor

section Stream

variable {S : Type} [TxnScanStream S]

-- No entry comes any more, and the status stays what it is.
def Spent (status : Except EngineError Unit) (stream : S) : Prop :=
  ∀ n, (TxnScanStream.next ((fun s => (TxnScanStream.next s).2)^[n] stream)).1 = none ∧
    TxnScanStream.status ((fun s => (TxnScanStream.next s).2)^[n + 1] stream) = status

def StreamYields (status : Except EngineError Unit) : List Item → S → Prop
  | [], stream => Spent status stream
  | x :: xs, stream =>
      (TxnScanStream.next stream).1 = some (x.key, x.value) ∧
        StreamYields status xs (TxnScanStream.next stream).2

-- A stream over `list`, all of it or up to a failure.
def StreamRuns (faulty : Prop) (list : List Item) (stream : S) : Prop :=
  StreamYields (.ok ()) list stream ∨
    faulty ∧ ∃ xs error, xs <+: list ∧ StreamYields (.error error) xs stream

theorem Spent.next {status : Except EngineError Unit} {stream : S} (h : Spent status stream) :
    Spent status (TxnScanStream.next stream).2 := by
  intro n
  have hn := h (n + 1)
  rwa [Function.iterate_succ_apply, Function.iterate_succ_apply] at hn

end Stream

section Transaction

variable {T S : Type} [TxnScanStream S] [OwnedTransaction T S]

-- The range that `scan_stream_in` is given.
def scan_bounds (start end_ : Option Bytes) (direction : ScanDirection) : Bounds :=
  ⟨start, end_, direction = .Reverse, false⟩

-- `merged` is a transaction's view: its buffered writes over its snapshot. Asking for
-- a stream leaves the view alone, and where reads fail may panic.
structure TransactionLaws (merged : T → List Item) (faulty : Prop) : Prop where
  ascending : ∀ t, Ascending (merged t)
  merged_scan : ∀ t start end_ direction,
    merged (OwnedTransaction.scan_stream_in t start end_ direction).2 = merged t
  scan : ∀ t start end_ direction,
    (∃ stream, (OwnedTransaction.scan_stream_in t start end_ direction).1 = .ok stream ∧
      StreamRuns faulty ((scan_bounds start end_ direction).listing (merged t)) stream) ∨
    faulty ∧ ∃ payload,
      (OwnedTransaction.scan_stream_in t start end_ direction).1 = .error payload

end Transaction

end Regolith.Ffi
