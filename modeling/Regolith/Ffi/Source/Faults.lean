import Regolith.Ffi.Source.Transaction

-- An engine that reads some entries of a range and then fails.
namespace Regolith.Ffi

-- Where a walk begins: at the start of its range, or at a seek.
inductive Start where
  | range
  | target (target : Bytes)

namespace Source

open OwnedSnapshotIter EntrySource

variable {C T S : Type} [OwnedSnapshotIter C] [TxnScanStream S] [OwnedTransaction T S]

-- The cursor, once it has been positioned.
def positioned (b : Bounds) (cursor : C) : Start → C
  | .range => restart_cursor b cursor
  | .target target =>
      if b.reverse then
        if above_end b target then restart_cursor b cursor else seek_for_prev cursor target
      else OwnedSnapshotIter.seek cursor (clamp_start b target)

-- The range that a stream is asked for.
def scanned (b : Bounds) : Start → Option Bytes × Option Bytes
  | .range => (b.start, b.end_)
  | .target target =>
      if b.reverse then (b.start, some (reverse_end b target))
      else (some (clamp_start b target), b.end_)

-- A cursor that stands on the first of some entries of the range, moves from each to
-- the next, and fails on the move after the last.
def CursorFails (b : Bounds) (error : EngineError) : List Item → C → Prop
  | [], cursor => Failed cursor ∧ status cursor = .error error
  | x :: xs, cursor =>
      StandsOn cursor (some x) ∧ b.contains x.key ∧ CursorFails b error xs (step_cursor b cursor)

-- The entries that the engine reads, from where a walk begins, before it fails.
def FailsAfter (b : Bounds) (start : Start) (xs : List Item) (error : EngineError) :
    Source C T S → Prop
  | .Snapshot cursor => CursorFails b error xs (positioned b cursor start)
  | .Txn txn _ _ => ∃ t stream, txn.Usable t ∧
      (OwnedTransaction.scan_stream_in t (scanned b start).1 (scanned b start).2 b.direction).1 =
        .ok stream ∧
      StreamYields (.error error) xs stream

def begun (b : Bounds) (source : Source C T S) : Start → Except Raised Bool × Source C T S
  | .range => EntrySource.restart b source
  | .target target => EntrySource.seek b target source

theorem begun_snapshot (b : Bounds) (cursor : C) (start : Start) :
    begun b (.Snapshot cursor : Source C T S) start = moved b (positioned b cursor start) := by
  cases start with
  | range => rfl
  | target target =>
      simp only [begun, positioned, EntrySource.seek, entrySource_seek_reverse,
        entrySource_seek_forward, seek_reverse]
      split
      · split <;> rfl
      · rfl

theorem begun_txn (b : Bounds) (txn : TxnInner T) (stream : Option S) (current : Option Entry)
    (start : Start) :
    begun b (.Txn txn stream current : Source C T S) start =
      rebuild b (scanned b start).1 (scanned b start).2 txn := by
  cases start with
  | range => rfl
  | target target =>
      simp only [begun, scanned, EntrySource.seek]
      split <;> rfl

theorem cursor_yields {b : Bounds} {error : EngineError} {xs : List Item} {cursor : C}
    (h : CursorFails b error xs cursor) :
    (walking b Cut).Yields (some (.failure (.of_error error))) xs
      (moved b cursor : Except Raised Bool × Source C T S) := by
  induction xs generalizing cursor with
  | nil =>
      obtain ⟨hfailed, hstatus⟩ := h
      refine ⟨?_, hfailed⟩
      simp [moved, cursor_valid, hfailed.valid, hstatus, fail]
  | cons x xs ih =>
      obtain ⟨hstands, hin, hrest⟩ := h
      refine ⟨by simp [moved, cursor_valid_some hstands, hin], shows_snapshot hstands hin, ?_⟩
      have hinside := (cursor_in_range_of_key (b := b) hstands).trans hin
      have hstep : (walking b Cut).step (.Snapshot cursor : Source C T S) =
          moved b (step_cursor b cursor) := by
        change Source.step b (.Snapshot cursor) = _
        simp [Source.step, hinside]
      have hmoved : (moved b cursor : Except Raised Bool × Source C T S).2 = .Snapshot cursor := rfl
      rw [hmoved, hstep]
      exact ih hrest

-- Either source yields these entries, and then the failure.
theorem FailsAfter.yields {b : Bounds} {start : Start} {xs : List Item} {error : EngineError}
    {source : Source C T S} (h : source.FailsAfter b start xs error) :
    (walking b Cut).Yields (some (.failure (.of_error error))) xs (begun b source start) := by
  cases source with
  | Snapshot cursor =>
      rw [begun_snapshot]
      exact cursor_yields h
  | Txn txn old current =>
      obtain ⟨t, stream, husable, hscan, hstream⟩ := h
      rw [begun_txn]
      simp only [rebuild, TxnInner.with_txn_usable husable, hscan, Except.mapError]
      exact pull_yields xs hstream

end Source

end Regolith.Ffi
