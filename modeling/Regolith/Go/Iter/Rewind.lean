import Regolith.Go.Iter.Readers

-- A reset or a seek leaves nothing of what came before it: two iterators over the same entries
-- cannot be told apart from there on, wherever each was and whatever had failed.
namespace Regolith

namespace Ffi.RegolithIter

open EntrySource

variable {σ τ : Type} [EntrySource σ] [EntrySource τ] {b : Bounds} {list : List Item}
  {Live Cut : σ → Prop} {Live' Cut' : τ → Prop} {i : RegolithIter σ} {i' : RegolithIter τ}

-- About to begin its walk.
structure Rewound (b : Bounds) (Live : σ → Prop) (i : RegolithIter σ) : Prop where
  bounds : i.bounds = b
  live : Live i.source
  reset : i.reset = true
  pending : i.pending = none

-- Moved to where the walk begins, which the next batch is to begin with.
def begun (i : RegolithIter σ) : RegolithIter σ :=
  { i with
    source := (EntrySource.restart i.bounds i.source).2
    reset := false
    include_current := true
    batch_values := []
    batch_count := 0 }

-- The move has been made already, and comes to the same.
theorem Rewound.advance_in_batch (walks : Walks b list False Live Cut) (h : Rewound b Live i) :
    i.invalidate_batch.advance_in_batch = i.begun.invalidate_batch.advance_in_batch := by
  obtain ⟨rfl, hlive, hreset, -⟩ := h
  have hyields := (walks.restart _ hlive).yields
  rw [← List.drop_zero (l := list)] at hyields
  obtain ⟨hresult, hstands⟩ := yields_drop hyields
  have hbegun : i.begun.invalidate_batch.advance_in_batch =
      (.ok i.begun.in_range, { i.begun with include_current := false }) := by
    rw [advance_in_batch_landed rfl rfl]
    rfl
  have hin : i.begun.in_range = list[0]?.isSome := stands_in_range hstands
  rw [hbegun, hin, ← hresult]
  simp only [RegolithIter.advance_in_batch, invalidate_batch, hreset, if_true, RegolithIter.restart,
    on_source, begun]

theorem Rewound.next_batch (walks : Walks b list False Live Cut) (h : Rewound b Live i)
    {max_entries : Nat} (hmax : max_entries ≠ 0) :
    regolith_iter_next_batch i max_entries .writable .writable .writable .writable =
      regolith_iter_next_batch i.begun max_entries .writable .writable .writable .writable := by
  obtain ⟨rounds, rfl⟩ := Nat.exists_eq_succ_of_ne_zero hmax
  have hpending : i.invalidate_batch.pending = none := h.pending
  have hpending' : i.begun.invalidate_batch.pending = none := h.pending
  simp only [regolith_iter_next_batch, reduceCtorEq, or_self, if_false, hmax, hpending, hpending',
    gather, h.advance_in_batch walks]

-- Begun over the same entries, two iterators stand alike.
theorem Rewound.alike (walks : Walks b list False Live Cut)
    (walks' : Walks b list False Live' Cut') (h : Rewound b Live i) (h' : Rewound b Live' i') :
    Alike b (SameStanding b Live Cut Live' Cut') i.begun i'.begun := by
  obtain ⟨rfl, hlive, -, hpending⟩ := h
  obtain ⟨hbounds, hlive', -, hpending'⟩ := h'
  have hmove := (walks.restart _ hlive).yields.agree (walks'.restart _ hlive').yields
  refine ⟨rfl, hbounds, ?_, rfl, rfl, rfl, rfl, hpending.trans hpending'.symm⟩
  simp only [begun, hbounds]
  exact ⟨walks.live_restart _ hlive, walks'.live_restart _ hlive', hmove.2⟩

-- And so they do after a seek to the same target, from anywhere.
theorem alike_seek (walks : Walks b list False Live Cut) (walks' : Walks b list False Live' Cut')
    (hbounds : i.bounds = b) (hlive : Live i.source) (hbounds' : i'.bounds = b)
    (hlive' : Live' i'.source) (target : Bytes) :
    (i.seek target).1 = (i'.seek target).1 ∧
      Alike b (SameStanding b Live Cut Live' Cut') (i.seek target).2 (i'.seek target).2 := by
  have hmove := (walks.seek _ target hlive).yields.agree (walks'.seek _ target hlive').yields
  rw [seek_eq, seek_eq]
  simp only [on_source, invalidate_batch, hbounds, hbounds']
  exact ⟨hmove.1, rfl, rfl, ⟨walks.live_seek _ target hlive,
    walks'.live_seek _ target hlive', hmove.2⟩, rfl, rfl, rfl, rfl, rfl⟩

end Ffi.RegolithIter

namespace Go

open Ffi Ffi.RegolithIter EntrySource

namespace Iter

section Twins

variable {σ τ : Type} [EntrySource σ] [EntrySource τ] {b : Bounds} {list : List Item}
  {Live Cut : σ → Prop} {Live' Cut' : τ → Prop} {it : Iter σ} {it' : Iter τ}

-- The same batch, and the same place in it.
structure SameBatch (it : Iter σ) (it' : Iter τ) : Prop where
  db_closed : it.db_closed = it'.db_closed
  keysOnly : it.keysOnly = it'.keysOnly
  ents : it.ents = it'.ents
  pos : it.pos = it'.pos
  done : it.done = it'.done
  buf : it.ents ≠ [] → it.buf = it'.buf

-- The same iterator to its caller: the handles stand alike, or are both to begin anew.
structure Twins (b : Bounds) (Live Cut : σ → Prop) (Live' Cut' : τ → Prop) (it : Iter σ)
    (it' : Iter τ) : Prop where
  same : it.SameBatch it'
  live : it.i.bounds = b ∧ Live it.i.source
  live' : it'.i.bounds = b ∧ Live' it'.i.source
  handles : Alike b (SameStanding b Live Cut Live' Cut') it.i it'.i ∨
    it.ents = [] ∧ Rewound b Live it.i ∧ Rewound b Live' it'.i

omit [EntrySource σ] [EntrySource τ] in
theorem SameBatch.Key (h : it.SameBatch it') : it.Key = it'.Key := by
  unfold Iter.Key
  rw [← h.ents, ← h.pos]
  cases he : it.ents[it.pos]? with
  | none => rfl
  | some e =>
      have hents : it.ents ≠ [] := by
        intro hnil
        simp [hnil] at he
      simp only [h.buf hents]

theorem Twins.Value (h : Twins b Live Cut Live' Cut' it it') : it.Value = it'.Value := by
  unfold Iter.Value
  rw [← h.same.keysOnly, ← h.same.ents, ← h.same.pos]
  rcases h.handles with halike | ⟨hents, -, -⟩
  · have hreply : regolith_iter_batch_value it.i it.pos .writable .writable .writable =
        regolith_iter_batch_value it'.i it.pos .writable .writable .writable := by
      simp only [regolith_iter_batch_value, halike.batch_count, halike.batch_values]
    rw [hreply]
  · simp [hents]

-- A refill of handles that stand alike.
theorem SameBatch.refill (walks : Walks b list False Live Cut)
    (walks' : Walks b list False Live' Cut') (h : it.SameBatch it')
    (halike : Alike b (SameStanding b Live Cut Live' Cut') it.i it'.i) :
    it.refill.1 = it'.refill.1 ∧ it.refill.2.SameBatch it'.refill.2 ∧
      Alike b (SameStanding b Live Cut Live' Cut') it.refill.2.i it'.refill.2.i := by
  obtain ⟨hreply, hafter⟩ := halike.next_batch (walks.sameAnswers walks') batchEntries .writable
    .writable .writable .writable
  rw [refill_i, refill_i]
  refine ⟨?_, ?_, hafter⟩
  all_goals
    simp only [Iter.refill]
    generalize regolith_iter_next_batch it.i batchEntries .writable .writable .writable .writable =
      result at hreply
    generalize regolith_iter_next_batch it'.i batchEntries .writable .writable .writable
      .writable = result' at hreply
    obtain ⟨reply, i⟩ := result
    obtain ⟨reply', i'⟩ := result'
    obtain rfl : reply = reply' := hreply
    simp only
  · split
    · rfl
    · rfl
    · split
      · rfl
      · split <;> rfl
  · split
    · exact ⟨h.db_closed, h.keysOnly, rfl, rfl, h.done, by simp⟩
    · exact ⟨h.db_closed, h.keysOnly, rfl, rfl, h.done, by simp⟩
    · split
      · exact ⟨h.db_closed, h.keysOnly, rfl, rfl, rfl, by simp⟩
      · split
        · exact ⟨h.db_closed, h.keysOnly, rfl, rfl, h.done, by simp⟩
        · exact ⟨h.db_closed, h.keysOnly, rfl, rfl, h.done, fun _ => rfl⟩

-- A first batch may as well begin on the first entry.
theorem refill_begun (walks : Walks b list False Live Cut) (h : Rewound b Live it.i) :
    it.refill = refill { it with i := it.i.begun } := by
  simp only [Iter.refill, h.next_batch walks (show batchEntries ≠ 0 by decide)]

theorem Twins.refill (walks : Walks b list False Live Cut)
    (walks' : Walks b list False Live' Cut') (h : Twins b Live Cut Live' Cut' it it') :
    it.refill.1 = it'.refill.1 ∧ Twins b Live Cut Live' Cut' it.refill.2 it'.refill.2 := by
  have hlive := refill_keeps (keepsLive walks.live_restart walks.live_step) h.live
  have hlive' := refill_keeps (keepsLive walks'.live_restart walks'.live_step) h.live'
  rcases h.handles with halike | ⟨-, hrewound, hrewound'⟩
  · obtain ⟨hresult, hsame, hafter⟩ := h.same.refill walks walks' halike
    exact ⟨hresult, hsame, hlive, hlive', .inl hafter⟩
  · rw [refill_begun walks hrewound] at hlive ⊢
    rw [refill_begun walks' hrewound'] at hlive' ⊢
    obtain ⟨same, -, -, -⟩ := h
    have hbegun : SameBatch { it with i := it.i.begun } { it' with i := it'.i.begun } :=
      ⟨same.db_closed, same.keysOnly, same.ents, same.pos, same.done, same.buf⟩
    obtain ⟨hresult, hsame, hafter⟩ :=
      hbegun.refill walks walks' (hrewound.alike walks walks' hrewound')
    exact ⟨hresult, hsame, hlive, hlive', .inl hafter⟩

theorem Twins.Next (walks : Walks b list False Live Cut)
    (walks' : Walks b list False Live' Cut') (h : Twins b Live Cut Live' Cut' it it') :
    it.Next.1 = it'.Next.1 ∧ Twins b Live Cut Live' Cut' it.Next.2 it'.Next.2 := by
  unfold Iter.Next
  rw [← h.same.db_closed, ← h.same.pos, ← h.same.ents, ← h.same.done]
  have hsame := h.same
  split_ifs
  · exact ⟨rfl, h⟩
  · exact ⟨rfl, ⟨rfl, hsame.keysOnly, rfl, rfl, rfl, hsame.buf⟩, h.live, h.live', h.handles⟩
  · exact ⟨rfl, ⟨rfl, hsame.keysOnly, rfl, rfl, rfl, hsame.buf⟩, h.live, h.live', h.handles⟩
  · exact h.refill walks walks'

-- A seek needs nothing of what the iterators have come through.
theorem twins_seek (walks : Walks b list False Live Cut) (walks' : Walks b list False Live' Cut')
    (hopen : it.db_closed = false) (hopen' : it'.db_closed = false)
    (hkeysOnly : it.keysOnly = it'.keysOnly) (hlive : it.i.bounds = b ∧ Live it.i.source)
    (hlive' : it'.i.bounds = b ∧ Live' it'.i.source) (target : Bytes) :
    (it.Seek target).1 = (it'.Seek target).1 ∧
      Twins b Live Cut Live' Cut' (it.Seek target).2 (it'.Seek target).2 := by
  obtain ⟨hresult, halike⟩ :=
    alike_seek walks walks' hlive.1 hlive.2 hlive'.1 hlive'.2 target
  have hreached : (it.i.seek target).2.bounds = b ∧ Live (it.i.seek target).2.source := by
    rw [seek_eq, on_source_iter]
    exact ⟨hlive.1, hlive.1 ▸ walks.live_seek _ target hlive.2⟩
  have hreached' : (it'.i.seek target).2.bounds = b ∧ Live' (it'.i.seek target).2.source := by
    rw [seek_eq, on_source_iter]
    exact ⟨hlive'.1, hlive'.1 ▸ walks'.live_seek _ target hlive'.2⟩
  simp only [Iter.Seek, hopen, hopen', Bool.false_eq_true, if_false, invalidate, regolith_iter_seek,
    in_bytes_bytePtr, ← hresult]
  split
  · exact ⟨rfl, ⟨rfl, hkeysOnly, rfl, rfl, rfl, by simp⟩, hreached, hreached', .inl halike⟩
  · split
    · exact ⟨rfl, ⟨rfl, hkeysOnly, rfl, rfl, rfl, by simp⟩, hreached, hreached', .inl halike⟩
    · refine Twins.refill walks walks' ⟨⟨rfl, hkeysOnly, rfl, rfl, rfl, by simp⟩, hreached,
        hreached', .inl halike⟩

theorem twins_reset (hopen : it.db_closed = it'.db_closed) (hkeysOnly : it.keysOnly = it'.keysOnly)
    (hlive : it.i.bounds = b ∧ Live it.i.source) (hlive' : it'.i.bounds = b ∧ Live' it'.i.source) :
    Twins b Live Cut Live' Cut' it.Reset it'.Reset :=
  ⟨⟨hopen, hkeysOnly, rfl, rfl, rfl, by simp [Reset, invalidate]⟩, hlive, hlive',
    .inr ⟨rfl, ⟨hlive.1, hlive.2, rfl, rfl⟩, ⟨hlive'.1, hlive'.2, rfl, rfl⟩⟩⟩

-- One call finds no difference, and leaves none.
theorem Twins.run (walks : Walks b list False Live Cut) (walks' : Walks b list False Live' Cut')
    (h : Twins b Live Cut Live' Cut' it it') (call : CursorCall) :
    (call.run it).1 = (call.run it').1 ∧
      Twins b Live Cut Live' Cut' (call.run it).2 (call.run it').2 := by
  cases call with
  | Next =>
      obtain ⟨hresult, hafter⟩ := h.Next walks walks'
      exact ⟨congrArg Outcome.moved hresult, hafter⟩
  | Seek target =>
      have hclosed := h.same.db_closed
      cases hopen : it.db_closed with
      | true =>
          rw [hopen] at hclosed
          simp only [CursorCall.run, Iter.Seek, hopen, ← hclosed, if_true]
          exact ⟨trivial, h⟩
      | false =>
          rw [hopen] at hclosed
          obtain ⟨hresult, hafter⟩ :=
            twins_seek walks walks' hopen hclosed.symm h.same.keysOnly h.live h.live' target
          exact ⟨congrArg Outcome.moved hresult, hafter⟩
  | Reset => exact ⟨rfl, twins_reset h.same.db_closed h.same.keysOnly h.live h.live'⟩
  | Key => exact ⟨congrArg Outcome.key h.same.Key, h⟩
  | Value => exact ⟨congrArg Outcome.value h.Value, h⟩

-- A whole run.
theorem Twins.outcomes_eq (walks : Walks b list False Live Cut)
    (walks' : Walks b list False Live' Cut') (h : Twins b Live Cut Live' Cut' it it')
    (calls : List CursorCall) : outcomes it calls = outcomes it' calls := by
  induction calls generalizing it it' with
  | nil => rfl
  | cons call calls ih =>
      obtain ⟨houtcome, hafter⟩ := h.run walks walks' call
      simp only [outcomes, houtcome, ih hafter]

end Twins

section Over

variable {C T S : Type} [OwnedSnapshotIter C] [TxnScanStream S] [OwnedTransaction T S]
  {entries : C → List Item} {merged : T → List Item} {opts : IterOptions} {view : List Item}
  {it it' : Iter (Source C T S)}

-- An iterator of an open database over these entries, a snapshot's or what a transaction
-- holds, in whatever state its calls and their failures have left it.
structure Over (entries : C → List Item) (merged : T → List Item) (opts : IterOptions)
    (view : List Item) (it : Iter (Source C T S)) : Prop where
  opened : it.Opened opts
  source : Source.OverSnapshot entries view it.i.source ∨ Source.OverTxn merged False view it.i.source

omit [OwnedSnapshotIter C] [TxnScanStream S] [OwnedTransaction T S] in
-- A new iterator is as a reset leaves it.
theorem Fresh.reset (h : it.Fresh opts) : it.Reset = it := by
  have hopened : ∃ source, it = .opened (.from_source source opts.bounds) opts := by
    cases h with
    | snapshot db h => exact newIter_db h
    | transaction closed resolved txn h => exact newIter_txn h
  obtain ⟨source, rfl⟩ := hopened
  rfl

-- After a reset, or a seek to the same target, iterators over the same entries answer every
-- call alike, a new one as well, whether over a snapshot or a transaction.
theorem rewind_forgets (cursorLaws : CursorLaws entries False)
    (txnLaws : TransactionLaws merged False) (h : it.Over entries merged opts view)
    (h' : it'.Over entries merged opts view) :
    (∀ calls, outcomes it.Reset calls = outcomes it'.Reset calls) ∧
      (∀ target calls, outcomes it (.Seek target :: calls) =
        outcomes it' (.Seek target :: calls)) ∧
      (it'.Fresh opts → ∀ calls, outcomes it.Reset calls = outcomes it' calls) := by
  have hwalks := (Source.snapshot_walks (T := T) (S := S) cursorLaws opts.bounds view).or
    (Source.txn_walks (C := C) txnLaws opts.bounds view)
  have hclosed := h.opened.not_closed.trans h'.opened.not_closed.symm
  have hkeysOnly := h.opened.keysOnly.trans h'.opened.keysOnly.symm
  have hreset : ∀ calls, outcomes it.Reset calls = outcomes it'.Reset calls :=
    (twins_reset hclosed hkeysOnly ⟨h.opened.bounds, h.source⟩
      ⟨h'.opened.bounds, h'.source⟩).outcomes_eq hwalks hwalks
  refine ⟨hreset, fun target calls => ?_, fun hfresh calls => ?_⟩
  · obtain ⟨hresult, hafter⟩ := twins_seek hwalks hwalks h.opened.not_closed h'.opened.not_closed
      hkeysOnly ⟨h.opened.bounds, h.source⟩ ⟨h'.opened.bounds, h'.source⟩ target
    simp only [outcomes, CursorCall.run, hresult, hafter.outcomes_eq hwalks hwalks]
  · rw [hreset, hfresh.reset]

end Over

-- A snapshot's iterator that a failure has stopped, with a batch of its own still there.
def stopped (contents : Contents) (opts : IterOptions) :
    Iter (Source (ListCursor noBad) (ListTxn noBad) (ListStream noBad)) where
  db_closed := false
  i := ⟨opts.bounds, .Snapshot ⟨contents, .error (.Other "bad block")⟩, false, true, [[7]], 1,
    some (.other "bad block")⟩
  keysOnly := opts.KeysOnly
  buf := [1, 0, 0, 0, 9]
  ents := [⟨4, 1⟩]
  pos := 0
  done := true

theorem rewind_forgets_stopped :
    let contents := Contents.ofPairs [([1], [10]), ([2], [])]
    let opts : IterOptions := ⟨[], [1], [], true, false⟩
    let it := stopped contents opts
    let it' := overList noBad contents opts
    (∀ calls, outcomes it.Reset calls = outcomes it'.Reset calls) ∧
      (∀ target calls, outcomes it (.Seek target :: calls) =
        outcomes it' (.Seek target :: calls)) ∧
      ∀ calls, outcomes it.Reset calls = outcomes it' calls := by
  intro contents opts it it'
  have h : it.Over (·.contents.entries) (·.contents.entries) opts contents.entries :=
    ⟨⟨rfl, rfl, rfl⟩, .inl rfl⟩
  have h' : it'.Over (·.contents.entries) (·.contents.entries) opts contents.entries := by
    refine ⟨⟨rfl, rfl, rfl⟩, .inr ⟨?_, fun _ => ⟨_, rfl, rfl⟩⟩⟩
    rintro t ⟨⟩
    rfl
  obtain ⟨hreset, hseek, hnew⟩ := rewind_forgets ListCursor.soundLaws ListTxn.soundLaws h h'
  exact ⟨hreset, hseek, hnew (fresh_overList _ _ _)⟩

end Iter

end Go

end Regolith
