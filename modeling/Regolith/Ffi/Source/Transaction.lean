import Regolith.Ffi.Source.Snapshot
import Regolith.Ffi.Txn.Theorems

-- A transaction's streams walk the entries of its range.
namespace Regolith.Ffi

variable {C T S : Type} [TxnScanStream S]

-- A transaction handle whose merged view, as far as it can still be reached, is
-- `entries`. Without faults it can be reached.
structure TxnInner.Serves (view : T → List Item) (faulty : Prop) (entries : List Item)
    (txn : TxnInner T) : Prop where
  view : ∀ t ∈ txn.txn.value, view t = entries
  usable : ¬faulty → ∃ t, txn.Usable t

namespace Source

open EntrySource

def OverTxn (view : T → List Item) (faulty : Prop) (entries : List Item) : Source C T S → Prop
  | .Snapshot _ => False
  | .Txn txn _ _ => txn.Serves view faulty entries

variable {view : T → List Item} {faulty : Prop} {b : Bounds} {entries : List Item}
  {txn : TxnInner T}

section Stream

-- How the walk over a stream ends, by the status it ends with.
def ending : Except EngineError Unit → Option Raised
  | .ok () => none
  | .error error => some (.failure (.of_error error))

theorem pull_some {stream : S} {x : Item}
    (h : (TxnScanStream.next stream).1 = some (x.key, x.value)) :
    (pull b txn (some stream) : Except Raised Bool × Source C T S) =
      (.ok true, .Txn txn (some (TxnScanStream.next stream).2)
        (some ⟨x.key, if b.keys_only then none else some x.value⟩)) := by
  rcases hnext : TxnScanStream.next stream with ⟨entry, stream'⟩
  simp only [hnext] at h
  simp [pull, hnext, h]

theorem pull_none {stream : S} {status : Except EngineError Unit} (h : Spent status stream) :
    (pull b txn (some stream) : Except Raised Bool × Source C T S) =
      (match ending status with
        | none => .ok false
        | some raised => .error raised,
        .Txn txn (some (TxnScanStream.next stream).2) none) := by
  obtain ⟨hnone, hstatus⟩ := h 0
  simp only [Function.iterate_zero, id_eq, Function.iterate_one, zero_add] at hnone hstatus
  rcases hnext : TxnScanStream.next stream with ⟨entry, stream'⟩
  simp only [hnext] at hnone hstatus
  cases status with
  | ok value => simp [pull, hnext, hnone, hstatus, ending]
  | error error => simp [pull, hnext, hnone, hstatus, ending, fail]

variable [OwnedSnapshotIter C] [OwnedTransaction T S]

theorem over_spent {stream : S} (h : Spent (.ok ()) stream) :
    (walking b Cut).Over (.Txn txn (some stream) none : Source C T S) := by
  apply Pull.over_of_invariant
    (fun source => ∃ s, source = .Txn txn (some s) none ∧ Spent (.ok ()) s)
  · rintro _ ⟨s, rfl, hs⟩
    rfl
  · rintro _ ⟨s, rfl, hs⟩
    exact congrArg Prod.fst (pull_none hs)
  · rintro _ ⟨s, rfl, hs⟩
    exact ⟨_, congrArg Prod.snd (pull_none hs), hs.next⟩
  · exact ⟨stream, rfl, h⟩

-- Before a stream is built, too, there is nothing to step to.
theorem over_unbuilt : (walking b Cut).Over (.Txn txn none none : Source C T S) := by
  apply Pull.over_of_invariant (· = .Txn txn none none)
  · rintro _ rfl
    rfl
  · rintro _ rfl
    rfl
  · rintro _ rfl
    rfl
  · rfl

theorem pull_yields {status : Except EngineError Unit} (xs : List Item) {stream : S}
    (h : StreamYields status xs stream) :
    (walking b Cut).Yields (ending status) xs
      (pull b txn (some stream) : Except Raised Bool × Source C T S) := by
  induction xs generalizing stream with
  | nil =>
      have hspent : Spent status stream := h
      rw [pull_none hspent]
      cases status with
      | ok value => exact ⟨rfl, over_spent hspent.next⟩
      | error error =>
          refine ⟨rfl, rfl, ?_⟩
          rintro s ⟨⟩
          exact ⟨error, (hspent 0).2, hspent.next⟩
  | cons x xs ih =>
      obtain ⟨hnext, hrest⟩ := h
      rw [pull_some hnext]
      refine ⟨rfl, ⟨rfl, rfl, fun hvalues => ?_⟩, ih hrest⟩
      have hvalue : (if b.keys_only then none else some x.value) = some x.value := by
        simp [hvalues]
      exact ⟨hvalue, hvalue⟩

theorem pull_runs {xs : List Item} {stream : S} (h : StreamRuns faulty xs stream) :
    (walking b Cut).Runs faulty xs
      (pull b txn (some stream) : Except Raised Bool × Source C T S) := by
  rcases h with h | ⟨hfaulty, front, error, hfront, h⟩
  · exact (pull_yields xs h).runs
  · exact ⟨front, _, pull_yields front h, hfront, by simp [ending], fun _ => hfaulty⟩

end Stream

section Rebuild

theorem pull_serves (h : txn.Serves view faulty entries) (stream : Option S) :
    OverTxn view faulty entries (pull b txn stream : Except Raised Bool × Source C T S).2 := by
  cases stream with
  | none => exact h
  | some stream =>
      simp only [pull]
      split
      · exact h
      · split
        · exact h
        · exact h

variable [OwnedSnapshotIter C] [OwnedTransaction T S]

omit [OwnedSnapshotIter C] in
theorem scan_serves (laws : TransactionLaws view faulty) (h : txn.Serves view faulty entries)
    (start end_ : Option Bytes) (direction : ScanDirection) :
    (txn.with_txn (OwnedTransaction.scan_stream_in · start end_ direction)).2.Serves view faulty
      entries := by
  by_cases hreach : ∃ t, txn.Usable t
  · obtain ⟨t, ht⟩ := hreach
    rw [TxnInner.with_txn_usable ht]
    refine ⟨?_, fun _ => ⟨_, ht.clean, rfl⟩⟩
    rintro t' ⟨⟩
    rw [laws.merged_scan]
    exact h.view t ht.open_
  · obtain ⟨failure, heq⟩ := TxnInner.with_txn_unreached (not_exists.mp hreach)
      (OwnedTransaction.scan_stream_in · start end_ direction)
    rwa [heq]

omit [OwnedSnapshotIter C] in
theorem rebuild_serves (laws : TransactionLaws view faulty) (h : txn.Serves view faulty entries)
    (start end_ : Option Bytes) :
    OverTxn view faulty entries
      (rebuild b start end_ txn : Except Raised Bool × Source C T S).2 := by
  have hserves := scan_serves laws h start end_ b.direction
  unfold rebuild
  split
  · next heq =>
      rw [heq] at hserves
      exact hserves
  · next heq =>
      rw [heq] at hserves
      exact pull_serves hserves _

theorem rebuild_runs (laws : TransactionLaws view faulty) (h : txn.Serves view faulty entries)
    (start end_ : Option Bytes) :
    (walking b Cut).Runs faulty ((scan_bounds start end_ b.direction).listing entries)
      (rebuild b start end_ txn : Except Raised Bool × Source C T S) := by
  have hcut (inner : TxnInner T) : Cut (.Txn inner none none : Source C T S) :=
    ⟨rfl, by rintro s ⟨⟩⟩
  by_cases hreach : ∃ t, txn.Usable t
  · obtain ⟨t, ht⟩ := hreach
    have hview : view t = entries := h.view t ht.open_
    rcases laws.scan t start end_ b.direction with ⟨stream, hok, hruns⟩ | ⟨hfaulty, payload, hpanic⟩
    · simp only [rebuild, TxnInner.with_txn_usable ht, hok, Except.mapError]
      rw [hview] at hruns
      exact pull_runs hruns
    · simp only [rebuild, TxnInner.with_txn_usable ht, hpanic, Except.mapError]
      let scanned := OwnedTransaction.scan_stream_in t start end_ b.direction
      exact .failed hfaulty rfl (hcut (txn.holding (some scanned.2)))
  · have hfaulty : faulty := by
      by_contra hnot
      exact hreach (h.usable hnot)
    obtain ⟨failure, heq⟩ := TxnInner.with_txn_unreached (not_exists.mp hreach)
      (OwnedTransaction.scan_stream_in · start end_ b.direction)
    simp only [rebuild, heq]
    exact .failed hfaulty rfl (hcut txn)

end Rebuild

section Ranges

-- A range cut down by a predicate lists what the predicate keeps.
theorem listing_narrow {narrow : Bounds} (keep : Item → Bool)
    (hdirection : narrow.reverse = b.reverse)
    (hkeep : ∀ x : Item, narrow.contains x.key ↔ b.contains x.key ∧ keep x) :
    narrow.listing entries = (b.listing entries).filter keep := by
  unfold Bounds.listing Bounds.oriented
  rw [List.filter_filter, hdirection]
  apply List.filter_congr
  intro x hx
  rw [Bool.eq_iff_iff, hkeep, Bool.and_eq_true, and_comm]

theorem scan_bounds_reverse (start end_ : Option Bytes) :
    (scan_bounds start end_ b.direction).reverse = b.reverse := by
  unfold scan_bounds Bounds.direction
  cases b.reverse <;> rfl

theorem listing_restart :
    (scan_bounds b.start b.end_ b.direction).listing entries = b.listing entries := by
  rw [listing_narrow (fun _ => true) (scan_bounds_reverse _ _), List.filter_true]
  intro x
  simp [Bounds.contains_iff, scan_bounds, Bounds.above_start, Bounds.below_end]

theorem listing_seek_forward (hdirection : b.reverse = false) (target : Bytes) :
    (scan_bounds (some (clamp_start b target)) b.end_ b.direction).listing entries =
      (b.listing entries).filter (b.reached target) := by
  apply listing_narrow _ (scan_bounds_reverse _ _)
  intro x
  rw [Bounds.reached_forward hdirection, decide_eq_true_eq, Bounds.contains_iff,
    Bounds.contains_iff]
  simp only [scan_bounds, Bounds.above_start, Bounds.below_end, Option.mem_def, Option.some.injEq,
    forall_eq']
  constructor
  · rintro ⟨hclamp, hend⟩
    have hstart : b.above_start x.key := fun start hstart =>
      (start_le_clamp_start target hstart).trans hclamp
    exact ⟨⟨hstart, hend⟩, (clamp_start_le_iff target hstart).mp hclamp⟩
  · rintro ⟨⟨hstart, hend⟩, htarget⟩
    exact ⟨(clamp_start_le_iff target hstart).mpr htarget, hend⟩

-- The bound of a reverse stream lets in exactly the range's keys up to the target.
theorem lt_reverse_end_iff (key target : Bytes) :
    key < reverse_end b target ↔ b.below_end key ∧ key ≤ target := by
  have hleast : ∀ byte : UInt8, ¬byte < 0 := by
    intro byte h
    exact absurd h (by simp)
  have happend : key < target ++ [0] ↔ key ≤ target := by
    rw [LexOrder.lt_append_least_iff hleast, not_lt]
  unfold reverse_end Bounds.below_end
  cases hend : b.end_ with
  | none => simpa using happend
  | some end_ =>
      simp only [Option.mem_def, Option.some.injEq, forall_eq']
      split_ifs with habove
      · have hle : end_ ≤ target := by simpa [above_end, hend] using habove
        exact ⟨fun h => ⟨h, h.le.trans hle⟩, fun h => h.1⟩
      · have hlt : target < end_ := by simpa [above_end, hend] using habove
        rw [happend]
        exact ⟨fun h => ⟨h.trans_lt hlt, h⟩, fun h => h.2⟩

theorem listing_seek_reverse (hdirection : b.reverse = true) (target : Bytes) :
    (scan_bounds b.start (some (reverse_end b target)) b.direction).listing entries =
      (b.listing entries).filter (b.reached target) := by
  apply listing_narrow _ (scan_bounds_reverse _ _)
  intro x
  rw [Bounds.reached_reverse hdirection, decide_eq_true_eq, Bounds.contains_iff,
    Bounds.contains_iff]
  have hend := lt_reverse_end_iff (b := b) x.key target
  simp only [scan_bounds, Bounds.above_start, Bounds.below_end, Option.mem_def, Option.some.injEq,
    forall_eq'] at *
  rw [hend, and_assoc]

end Ranges

theorem txn_walks [OwnedSnapshotIter C] [OwnedTransaction T S] (laws : TransactionLaws view faulty)
    (b : Bounds) (entries : List Item) :
    Walks b (b.listing entries) faulty (OverTxn (C := C) (S := S) view faulty entries) Cut where
  live_restart source h := by
    cases source with
    | Snapshot cursor => exact h.elim
    | Txn txn stream current => exact rebuild_serves laws h _ _
  live_seek source target h := by
    cases source with
    | Snapshot cursor => exact h.elim
    | Txn txn stream current =>
        simp only [EntrySource.seek]
        split
        · exact rebuild_serves laws h _ _
        · exact rebuild_serves laws h _ _
  live_step source h := by
    cases source with
    | Snapshot cursor => exact h.elim
    | Txn txn stream current => exact pull_serves h stream
  restart source h := by
    cases source with
    | Snapshot cursor => exact h.elim
    | Txn txn stream current =>
        have hruns := rebuild_runs (C := C) (b := b) laws h b.start b.end_
        rwa [listing_restart] at hruns
  seek source target h := by
    cases source with
    | Snapshot cursor => exact h.elim
    | Txn txn stream current =>
        simp only [EntrySource.seek]
        cases hdirection : b.reverse with
        | false =>
            rw [← listing_seek_forward hdirection]
            exact rebuild_runs laws h _ _
        | true =>
            rw [← listing_seek_reverse hdirection]
            exact rebuild_runs laws h _ _

end Source

end Regolith.Ffi
