import Regolith.Ffi.Iter
import Regolith.Ffi.ListEngine
import Regolith.Ffi.Source.Transaction

-- Two iterators whose sources answer alike cannot be told apart.
namespace Regolith.Ffi

inductive IterCall where
  | next (valid err : OutParam)
  | next_batch (max_entries : Nat) (out out_len out_count err : OutParam)
  | seek (key : InBytes) (valid err : OutParam)
  | reset (err : OutParam)
  | key (key key_len err : OutParam)
  | value (val val_len err : OutParam)
  | batch_value (idx : Nat) (val val_len err : OutParam)

inductive IterReply where
  | flag (reply : Reply Bool)
  | batch (reply : Reply KeyBatch)
  | done (reply : Reply Unit)
  | bytes (reply : Reply Bytes)
  | lent (reply : Reply (Option Bytes))

section Run

variable {σ : Type} [EntrySource σ]

def IterCall.run (it : RegolithIter σ) : IterCall → IterReply × RegolithIter σ
  | .next valid err =>
      let (reply, it) := regolith_iter_next it valid err
      (.flag reply, it)
  | .next_batch max_entries out out_len out_count err =>
      let (reply, it) := regolith_iter_next_batch it max_entries out out_len out_count err
      (.batch reply, it)
  | .seek target valid err =>
      let (reply, it) := regolith_iter_seek it target valid err
      (.flag reply, it)
  | .reset err =>
      let (reply, it) := regolith_iter_reset it err
      (.done reply, it)
  | .key out out_len err => (.bytes (regolith_iter_key it out out_len err), it)
  | .value val val_len err => (.bytes (regolith_iter_value it val val_len err), it)
  | .batch_value idx val val_len err =>
      (.lent (regolith_iter_batch_value it idx val val_len err), it)

-- The replies to a sequence of calls.
def replies (it : RegolithIter σ) : List IterCall → List IterReply
  | [] => []
  | call :: calls => (call.run it).1 :: replies (call.run it).2 calls

end Run

variable {σ τ : Type} [EntrySource σ] [EntrySource τ]

-- Sources related by `Same` answer every move and every question alike, and stay related.
structure SameAnswers (b : Bounds) (Same : σ → τ → Prop) : Prop where
  restart : ∀ s t, Same s t →
    (EntrySource.restart b s).1 = (EntrySource.restart b t).1 ∧
      Same (EntrySource.restart b s).2 (EntrySource.restart b t).2
  step : ∀ s t, Same s t →
    (EntrySource.step b s).1 = (EntrySource.step b t).1 ∧
      Same (EntrySource.step b s).2 (EntrySource.step b t).2
  seek : ∀ target s t, Same s t →
    (EntrySource.seek b target s).1 = (EntrySource.seek b target t).1 ∧
      Same (EntrySource.seek b target s).2 (EntrySource.seek b target t).2
  in_range : ∀ s t, Same s t → EntrySource.in_range b s = EntrySource.in_range b t
  key : ∀ s t, Same s t → EntrySource.in_range b s → EntrySource.key s = EntrySource.key t
  value : ∀ s t, Same s t → EntrySource.in_range b s → b.keys_only = false →
    EntrySource.value s = EntrySource.value t ∧
      EntrySource.value_slice s = EntrySource.value_slice t

namespace RegolithIter

variable {b : Bounds} {Same : σ → τ → Prop} {it : RegolithIter σ} {it' : RegolithIter τ}

omit [EntrySource σ] in
@[simp] theorem on_source_result (it : RegolithIter σ) (move : σ → Except Raised Bool × σ) :
    (it.on_source move).1 = (move it.source).1 := rfl

omit [EntrySource σ] in
@[simp] theorem on_source_iter (it : RegolithIter σ) (move : σ → Except Raised Bool × σ) :
    (it.on_source move).2 = { it with source := (move it.source).2 } := rfl

theorem seek_eq (it : RegolithIter σ) (target : Bytes) :
    it.seek target =
      { it.invalidate_batch with
        reset := false, pending := none, include_current := true }.on_source
          (EntrySource.seek it.bounds target) := by
  simp only [seek, invalidate_batch, on_source, EntrySource.seek]
  split <;> simp [*]

-- Equal but for their sources, which are related.
structure Alike (b : Bounds) (Same : σ → τ → Prop) (it : RegolithIter σ)
    (it' : RegolithIter τ) : Prop where
  bounds : it.bounds = b
  bounds_eq : it'.bounds = b
  source : Same it.source it'.source
  reset : it.reset = it'.reset
  include_current : it.include_current = it'.include_current
  batch_values : it.batch_values = it'.batch_values
  batch_count : it.batch_count = it'.batch_count
  pending : it.pending = it'.pending

namespace Alike

theorem in_range (same : SameAnswers b Same) (h : Alike b Same it it') :
    it.in_range = it'.in_range := by
  simp only [RegolithIter.in_range, h.bounds, h.bounds_eq]
  exact same.in_range _ _ h.source

theorem current_key (same : SameAnswers b Same) (h : Alike b Same it it') :
    it.current_key = it'.current_key := by
  unfold RegolithIter.current_key
  rw [← in_range same h]
  split
  · next hin =>
      rw [RegolithIter.in_range, h.bounds] at hin
      exact same.key _ _ h.source hin
  · rfl

theorem current_values (same : SameAnswers b Same) (h : Alike b Same it it') :
    it.current_value = it'.current_value ∧
      it.current_value_slice = it'.current_value_slice := by
  unfold RegolithIter.current_value RegolithIter.current_value_slice
  rw [← in_range same h, h.bounds, h.bounds_eq]
  split
  · exact ⟨rfl, rfl⟩
  · next hguard =>
      simp only [Bool.or_eq_true, Bool.not_eq_true', not_or, Bool.not_eq_false,
        Bool.not_eq_true] at hguard
      obtain ⟨hvalues, hin⟩ := hguard
      rw [RegolithIter.in_range, h.bounds] at hin
      exact same.value _ _ h.source hin hvalues

-- A move of the sources, after the same changes to the other fields.
omit [EntrySource σ] [EntrySource τ] in
theorem on_source (h : Alike b Same it it') {move : σ → Except Raised Bool × σ}
    {move' : τ → Except Raised Bool × τ}
    (hmove : (move it.source).1 = (move' it'.source).1 ∧
      Same (move it.source).2 (move' it'.source).2) :
    (it.on_source move).1 = (it'.on_source move').1 ∧
      Alike b Same (it.on_source move).2 (it'.on_source move').2 :=
  ⟨hmove.1, { h with source := hmove.2 }⟩

theorem restart (same : SameAnswers b Same) (h : Alike b Same it it') :
    it.restart.1 = it'.restart.1 ∧ Alike b Same it.restart.2 it'.restart.2 := by
  unfold RegolithIter.restart
  rw [h.bounds, h.bounds_eq]
  exact on_source h (same.restart _ _ h.source)

theorem step (same : SameAnswers b Same) (h : Alike b Same it it') :
    it.step.1 = it'.step.1 ∧ Alike b Same it.step.2 it'.step.2 := by
  unfold RegolithIter.step
  rw [h.bounds, h.bounds_eq]
  exact on_source h (same.step _ _ h.source)

theorem seek (same : SameAnswers b Same) (h : Alike b Same it it') (target : Bytes) :
    (it.seek target).1 = (it'.seek target).1 ∧
      Alike b Same (it.seek target).2 (it'.seek target).2 := by
  rw [seek_eq, seek_eq, h.bounds, h.bounds_eq]
  refine on_source ?_ (same.seek target _ _ h.source)
  exact ⟨h.bounds, h.bounds_eq, h.source, rfl, rfl, rfl, rfl, rfl⟩

theorem advance (same : SameAnswers b Same) (h : Alike b Same it it') :
    it.advance.1 = it'.advance.1 ∧ Alike b Same it.advance.2 it'.advance.2 := by
  unfold RegolithIter.advance
  simp only [← h.reset]
  split
  · exact restart same { h with reset := rfl, include_current := rfl }
  · exact step same { h with reset := rfl, include_current := rfl }

theorem advance_in_batch (same : SameAnswers b Same) (h : Alike b Same it it') :
    it.advance_in_batch.1 = it'.advance_in_batch.1 ∧
      Alike b Same it.advance_in_batch.2 it'.advance_in_batch.2 := by
  unfold RegolithIter.advance_in_batch
  rw [← h.reset, ← h.include_current]
  split
  · exact restart same { h with reset := rfl, include_current := rfl }
  · split
    · exact ⟨congrArg Except.ok (in_range same h),
        { h with reset := rfl, include_current := rfl }⟩
    · exact step same h

theorem gather (same : SameAnswers b Same) (rounds : Nat) (batch : KeyBatch) (retained : Nat)
    {it : RegolithIter σ} {it' : RegolithIter τ} (h : Alike b Same it it') :
    (it.gather rounds batch retained).1 = (it'.gather rounds batch retained).1 ∧
      Alike b Same (it.gather rounds batch retained).2 (it'.gather rounds batch retained).2 := by
  induction rounds generalizing batch retained it it' with
  | zero => exact ⟨rfl, h⟩
  | succ rounds ih =>
      obtain ⟨hresult, hafter⟩ := advance_in_batch same h
      rcases hmove : it.advance_in_batch with ⟨result, next⟩
      rcases hmove' : it'.advance_in_batch with ⟨result', next'⟩
      rw [hmove, hmove'] at hresult hafter
      simp only at hresult hafter
      subst hresult
      simp only [RegolithIter.gather, hmove, hmove']
      rcases result with (failure | payload) | (_ | _)
      · simp only
        split
        · exact ⟨rfl, hafter⟩
        · exact ⟨rfl, { hafter with pending := rfl }⟩
      · exact ⟨rfl, hafter⟩
      · exact ⟨rfl, hafter⟩
      · simp only
        rw [← current_key same hafter, ← (current_values same hafter).2]
        cases next.current_key with
        | none => exact ⟨rfl, hafter⟩
        | some key =>
            simp only
            split
            · exact ⟨rfl, hafter⟩
            · cases next.current_value_slice with
              | none => exact ih _ _ hafter
              | some value =>
                  have hvalue : Alike b Same
                      { next with batch_values := next.batch_values ++ [value] }
                      { next' with batch_values := next'.batch_values ++ [value] } :=
                    { hafter with batch_values := by rw [hafter.batch_values] }
                  simp only
                  split
                  · exact ⟨rfl, hvalue⟩
                  · exact ih _ _ hvalue

theorem next (same : SameAnswers b Same) (h : Alike b Same it it') (valid err : OutParam) :
    (regolith_iter_next it valid err).1 = (regolith_iter_next it' valid err).1 ∧
      Alike b Same (regolith_iter_next it valid err).2 (regolith_iter_next it' valid err).2 := by
  obtain ⟨hresult, hafter⟩ := advance same h
  exact ⟨by simp only [regolith_iter_next, hresult], hafter⟩

theorem next_batch (same : SameAnswers b Same) (h : Alike b Same it it') (max_entries : Nat)
    (out out_len out_count err : OutParam) :
    (regolith_iter_next_batch it max_entries out out_len out_count err).1 =
        (regolith_iter_next_batch it' max_entries out out_len out_count err).1 ∧
      Alike b Same (regolith_iter_next_batch it max_entries out out_len out_count err).2
        (regolith_iter_next_batch it' max_entries out out_len out_count err).2 := by
  have hinvalidated : Alike b Same it.invalidate_batch it'.invalidate_batch :=
    { h with batch_values := rfl, batch_count := rfl }
  obtain ⟨hresult, hafter⟩ := gather same max_entries ⟨[], 0⟩ 0 hinvalidated
  unfold regolith_iter_next_batch
  split
  · exact ⟨rfl, h⟩
  · split
    · exact ⟨rfl, h⟩
    · simp only [← hinvalidated.pending]
      cases it.invalidate_batch.pending with
      | some failure => exact ⟨rfl, { hinvalidated with pending := rfl }⟩
      | none =>
          simp only
          rcases hgather : it.invalidate_batch.gather max_entries ⟨[], 0⟩ 0 with
            ⟨result, next⟩
          rcases hgather' : it'.invalidate_batch.gather max_entries ⟨[], 0⟩ 0 with
            ⟨result', next'⟩
          rw [hgather, hgather'] at hresult hafter
          simp only at hresult hafter
          subst hresult
          cases result with
          | error raised => exact ⟨rfl, hafter⟩
          | ok batch => exact ⟨rfl, { hafter with batch_count := rfl }⟩

theorem run (same : SameAnswers b Same) (h : Alike b Same it it') (call : IterCall) :
    (call.run it).1 = (call.run it').1 ∧ Alike b Same (call.run it).2 (call.run it').2 := by
  cases call with
  | next valid err =>
      obtain ⟨hreply, hafter⟩ := next same h valid err
      exact ⟨congrArg IterReply.flag hreply, hafter⟩
  | next_batch max_entries out out_len out_count err =>
      obtain ⟨hreply, hafter⟩ := next_batch same h max_entries out out_len out_count err
      exact ⟨congrArg IterReply.batch hreply, hafter⟩
  | seek key valid err =>
      simp only [IterCall.run, regolith_iter_seek]
      cases in_bytes key with
      | none => exact ⟨rfl, h⟩
      | some target =>
          obtain ⟨hresult, hafter⟩ := seek same h target
          exact ⟨by simp only [hresult], hafter⟩
  | reset err =>
      exact ⟨rfl, h.bounds, h.bounds_eq, h.source, rfl, rfl, rfl, rfl, rfl⟩
  | key key key_len err =>
      simp only [IterCall.run, regolith_iter_key, current_key same h]
      exact ⟨trivial, h⟩
  | value val val_len err =>
      simp only [IterCall.run, regolith_iter_value, in_range same h, (current_values same h).1]
      exact ⟨trivial, h⟩
  | batch_value idx val val_len err =>
      simp only [IterCall.run, regolith_iter_batch_value, h.batch_count, h.batch_values]
      exact ⟨trivial, h⟩

-- A whole run.
theorem replies_eq (same : SameAnswers b Same) (h : Alike b Same it it') (calls : List IterCall) :
    replies it calls = replies it' calls := by
  induction calls generalizing it it' with
  | nil => rfl
  | cons call calls ih =>
      obtain ⟨hreply, hafter⟩ := run same h call
      simp only [replies, hreply, ih hafter]

end Alike

end RegolithIter

section Walks

open EntrySource

variable {b : Bounds} {list : List Item} {Live Cut : σ → Prop} {Live' Cut' : τ → Prop}

-- Standing alike: on the same entry, with the same entries to come.
def SameStanding (b : Bounds) (Live Cut : σ → Prop) (Live' Cut' : τ → Prop) (s : σ)
    (t : τ) : Prop :=
  Live s ∧ Live' t ∧ ∃ current rest,
    (walking b Cut).Stands none current rest s ∧ (walking b Cut').Stands none current rest t

theorem EntrySource.Walks.sameAnswers (walks : Walks b list False Live Cut)
    (walks' : Walks b list False Live' Cut') :
    SameAnswers b (SameStanding b Live Cut Live' Cut') where
  restart s t h := by
    have hmove := (walks.restart s h.1).yields.agree (walks'.restart t h.2.1).yields
    exact ⟨hmove.1, walks.live_restart s h.1, walks'.live_restart t h.2.1, hmove.2⟩
  step s t h := by
    obtain ⟨hs, ht, current, rest, hstands, hstands'⟩ := h
    have hmove := hstands.2.agree hstands'.2
    exact ⟨hmove.1, walks.live_step s hs, walks'.live_step t ht, hmove.2⟩
  seek target s t h := by
    have hmove := (walks.seek s target h.1).yields.agree (walks'.seek t target h.2.1).yields
    exact ⟨hmove.1, walks.live_seek s target h.1, walks'.live_seek t target h.2.1, hmove.2⟩
  in_range s t h := by
    obtain ⟨-, -, current, rest, hstands, hstands'⟩ := h
    exact (stands_in_range hstands).trans (stands_in_range hstands').symm
  key s t h hin := by
    obtain ⟨-, -, current, rest, hstands, hstands'⟩ := h
    cases current with
    | none => simp [stands_in_range hstands] at hin
    | some x => exact hstands.1.2.1.trans hstands'.1.2.1.symm
  value s t h hin hvalues := by
    obtain ⟨-, -, current, rest, hstands, hstands'⟩ := h
    cases current with
    | none => simp [stands_in_range hstands] at hin
    | some x =>
        obtain ⟨hvalue, hslice⟩ := hstands.1.2.2 hvalues
        obtain ⟨hvalue', hslice'⟩ := hstands'.1.2.2 hvalues
        exact ⟨hvalue.trans hvalue'.symm, hslice.trans hslice'.symm⟩

end Walks

section Sources

variable {C T S : Type} [OwnedSnapshotIter C] [TxnScanStream S] [OwnedTransaction T S]

-- The snapshot source and the transaction source are the same iterator.
theorem snapshot_txn_agree {entries : C → List Item} {merged : T → List Item}
    (cursorLaws : CursorLaws entries False) (txnLaws : TransactionLaws merged False)
    {cursor : C} (hunpositioned : StandsOn cursor none) {txn : TxnInner T} {t : T}
    (hopen : txn.Usable t) (hsame : merged t = entries cursor) (b : Bounds) :
    ∃ it, (RegolithIter.over_txn C S txn b).1 = .ok it ∧
      ∀ calls, replies (RegolithIter.over_snapshot T S cursor b) calls = replies it calls := by
  let inner := txn.holding (some t)
  have hnew : (RegolithIter.over_txn C S txn b).1 = .ok (.from_source (.Txn inner none none) b) := by
    simp only [RegolithIter.over_txn, TxnInner.with_txn_usable hopen, Except.mapError]
    rfl
  have hserves : inner.Serves merged False (entries cursor) := by
    refine ⟨?_, fun _ => ⟨t, hopen.clean, rfl⟩⟩
    rintro t' ⟨⟩
    exact hsame
  have hanswers := (Source.snapshot_walks (T := T) (S := S) cursorLaws b
    (entries cursor)).sameAnswers (Source.txn_walks (C := C) txnLaws b (entries cursor))
  refine ⟨_, hnew, fun calls => RegolithIter.Alike.replies_eq hanswers ?_ calls⟩
  -- Before the first move neither source stands on an entry, or has one to step to.
  have hfresh := Source.over_snapshot (T := T) (S := S) (b := b)
    (Source.cursor_in_range_none hunpositioned) Source.Cut
  have hfresh' : (EntrySource.walking b Source.Cut).Over (.Txn inner none none : Source C T S) :=
    Source.over_unbuilt
  refine ⟨rfl, rfl, ?_, rfl, rfl, rfl, rfl, rfl⟩
  exact ⟨rfl, hserves, none, [], hfresh.stands, hfresh'.stands⟩

theorem snapshot_txn_agree_reverse :
    ∃ it, (RegolithIter.over_txn (ListCursor noBad) (ListStream noBad)
        (TxnInner.new (⟨.ofPairs [([1], [10]), ([2], [])]⟩ : ListTxn noBad) false)
        ⟨some [1], some [3], true, false⟩).1 = .ok it ∧
      ∀ calls, replies (ListCursor.iter noBad [([1], [10]), ([2], [])]
        ⟨some [1], some [3], true, false⟩) calls = replies it calls :=
  snapshot_txn_agree ListCursor.soundLaws ListTxn.soundLaws
    (ListCursor.standsOn_of_place rfl) ⟨rfl, rfl⟩ rfl _

end Sources

end Regolith.Ffi
