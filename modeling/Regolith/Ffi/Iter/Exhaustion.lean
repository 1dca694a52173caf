import Regolith.Ffi.Iter.Theorems
import Regolith.Ffi.Tracked

-- When an end of the range is reported, and whether the range has ended.
namespace Regolith.Ffi

open EntrySource

namespace Source

variable {C T S : Type} [OwnedSnapshotIter C] [TxnScanStream S] [OwnedTransaction T S]

-- Not cut off: the cursor has no error, or there is a stream.
def Intact : Source C T S → Prop
  | .Snapshot cursor => OwnedSnapshotIter.status cursor = .ok ()
  | .Txn _ stream _ => stream.isSome

-- On an entry, or without an error to explain why not.
def Explained : Source C T S → Prop
  | .Snapshot _ => True
  | .Txn _ stream current => current.isSome ∨ ∀ s ∈ stream, TxnScanStream.status s = .ok ()

end Source

section Calls

variable {C T S : Type} [OwnedSnapshotIter C] [TxnScanStream S] [OwnedTransaction T S]

-- A call that asks for entries, with arguments it accepts.
def IterCall.Asks : IterCall → Prop
  | .next valid _ => valid = .writable
  | .next_batch max_entries out out_len out_count _ =>
      max_entries ≠ 0 ∧ out = .writable ∧ out_len = .writable ∧ out_count = .writable
  | _ => False

def IterReply.Exhausted : IterReply → Prop
  | .flag reply => reply.status = OK ∧ reply.out = some false
  | .batch reply => reply.status = OK ∧ reply.out.map (·.count) = some 0
  | _ => False

-- The states in which a call that asks for entries can be believed when it finds none.
def IterCall.Trusted (it : RegolithIter (Source C T S)) : IterCall → Prop
  | .next _ _ => it.reset = true ∨ it.source.Intact
  | .next_batch _ _ _ _ _ =>
      it.pending.isSome ∨ it.reset = true ∨
        it.source.Intact ∧ (it.include_current = true → it.source.Explained)
  | _ => True

-- One event of a run: a call on the iterator, or a change to the transaction it is over.
inductive IterEvent (T : Type) where
  | call (call : IterCall)
  | handle (txn : TxnInner T)

def IterEvent.apply (it : RegolithIter (Source C T S)) :
    IterEvent T → RegolithIter (Source C T S)
  | .call made => (made.run it).2
  | .handle txn => { it with source := it.source.with_handle txn }

def IterEvent.applyTracked (it : RegolithIter (Tracked (Source C T S))) :
    IterEvent T → RegolithIter (Tracked (Source C T S))
  | .call made => (made.run it).2
  | .handle txn =>
      { it with source := { it.source with source := it.source.source.with_handle txn } }

theorem IterEvent.untracked (it : RegolithIter (Tracked (Source C T S))) (event : IterEvent T) :
    (event.applyTracked it).untracked = event.apply it.untracked := by
  cases event with
  | call call => exact (it.run_untracked call).2.symm
  | handle txn => rfl

theorem IterEvent.foldl_untracked (it : RegolithIter (Tracked (Source C T S)))
    (events : List (IterEvent T)) :
    (events.foldl IterEvent.applyTracked it).untracked =
      events.foldl IterEvent.apply it.untracked := by
  induction events generalizing it with
  | nil => rfl
  | cons event events ih => rw [List.foldl_cons, List.foldl_cons, ih, event.untracked]

end Calls

section Settled

variable {C T S : Type} [OwnedSnapshotIter C] [TxnScanStream S] [OwnedTransaction T S]
  {entries : C → List Item} {merged : T → List Item} {b : Bounds} {list : List Item}

namespace Source

-- Left by a move that did not fail.
def Settled : Source C T S → Prop
  | .Snapshot cursor => ∃ entry, StandsOn cursor entry
  | .Txn _ stream _ => stream.isSome

omit [TxnScanStream S] [OwnedTransaction T S] in
theorem Settled.intact {source : Source C T S} (h : source.Settled) : source.Intact := by
  cases source with
  | Snapshot cursor =>
      obtain ⟨entry, hstands⟩ := h
      exact hstands.status
  | Txn txn stream current => exact h

omit [TxnScanStream S] [OwnedTransaction T S] in
theorem moved_settled {faulty : Prop} {cursor : C} {entry : Option Item} {found : Bool}
    (h : MovesTo faulty cursor entry)
    (hok : (moved b cursor : Except Raised Bool × Source C T S).1 = .ok found) :
    (moved b cursor : Except Raised Bool × Source C T S).2.Settled := by
  rcases h with hstands | ⟨-, hfailed⟩
  · exact ⟨entry, hstands⟩
  · obtain ⟨error, herror⟩ := cursor_valid_failed (b := b) hfailed
    simp [moved, herror, fail] at hok

omit [OwnedTransaction T S] in
theorem pull_settled (txn : TxnInner T) (stream : S) :
    (pull b txn (some stream) : Except Raised Bool × Source C T S).2.Settled := by
  simp only [pull]
  split
  · rfl
  · split <;> rfl

theorem rebuild_settled {start end_ : Option Bytes} {txn : TxnInner T} {found : Bool}
    (hok : (rebuild b start end_ txn : Except Raised Bool × Source C T S).1 = .ok found) :
    (rebuild b start end_ txn : Except Raised Bool × Source C T S).2.Settled := by
  unfold rebuild at *
  split
  · next heq => simp [heq] at hok
  · exact pull_settled _ _

variable (cursorLaws : CursorLaws entries True) {source : Source C T S} {found : Bool}

include cursorLaws

theorem restart_settled (hok : (EntrySource.restart b source).1 = .ok found) :
    (EntrySource.restart b source).2.Settled := by
  cases source with
  | Snapshot cursor => exact moved_settled (restart_cursor_movesTo cursorLaws cursor) hok
  | Txn txn stream current => exact rebuild_settled hok

theorem seek_settled {target : Bytes} (hok : (EntrySource.seek b target source).1 = .ok found) :
    (EntrySource.seek b target source).2.Settled := by
  simp only [EntrySource.seek, entrySource_seek_reverse, entrySource_seek_forward] at *
  cases source with
  | Txn txn stream current =>
      split at hok
      · simp only [*, if_true]
        exact rebuild_settled hok
      · simp only [*]
        exact rebuild_settled hok
  | Snapshot cursor =>
      cases hdirection : b.reverse with
      | false =>
          simp only [hdirection, Bool.false_eq_true, if_false] at *
          exact moved_settled (cursorLaws.seek cursor _) hok
      | true =>
          simp only [hdirection, if_true, seek_reverse] at *
          split at hok
          · simp only [*, if_true]
            exact moved_settled (restart_cursor_movesTo cursorLaws cursor) hok
          · simp only [*]
            exact moved_settled (cursorLaws.seek_for_prev cursor target) hok

theorem step_settled (h : source.Settled) (hok : (EntrySource.step b source).1 = .ok found) :
    (EntrySource.step b source).2.Settled := by
  cases source with
  | Txn txn stream current =>
      obtain ⟨s, rfl⟩ := Option.isSome_iff_exists.mp h
      exact pull_settled txn s
  | Snapshot cursor =>
      obtain ⟨entry, hstands⟩ := h
      simp only [entrySource_step, step] at *
      split at hok
      · next hin =>
          cases entry with
          | none => simp [cursor_in_range_none hstands] at hin
          | some x =>
              simp only [hin, if_true]
              exact moved_settled (step_cursor_movesTo cursorLaws hstands) hok
      · next hout =>
          simp only [hout]
          exact ⟨entry, hstands⟩

end Source

end Settled

section Known

variable {C T S : Type} [OwnedSnapshotIter C] [TxnScanStream S] [OwnedTransaction T S]
  {entries : C → List Item} {merged : T → List Item} {b : Bounds} {list : List Item}
  {Live : Source C T S → Prop}

-- The entries beyond the position are those that the source goes on to, all of them or
-- up to a failure, and there are none once it stands on none.
def Follows (b : Bounds) (beyond : List Item) (source : Source C T S) : Prop :=
  ∃ current xs fin, (current = none → beyond = []) ∧
    (walking b Source.Cut).Stands fin current xs source ∧ xs <+: beyond ∧ (fin = none → xs = beyond)

-- What is known of a tracked source after a move.
def Known (b : Bounds) (t : Tracked (Source C T S)) : Prop :=
  t.source.Cut ∨ t.source.Settled ∧ Follows b t.beyond t.source

-- Cut off, a source stays so. Stepped, it finds nothing: quietly if there is no
-- stream or the cursor has left the range, with the error again if there is a stream.
theorem cut_step {source : Source C T S} (h : source.Cut) :
    (step b source).2.Cut ∧ in_range b source = false ∧ (step b source).1 ≠ .ok true ∧
      (source.Intact → (step b source).1 ≠ .ok false) ∧
      (¬source.Intact → (step b source).1 = .ok false) := by
  cases source with
  | Snapshot cursor =>
      have hfailed : Failed cursor := h
      have hout : Source.cursor_in_range b cursor = false := by
        simp [Source.cursor_in_range, hfailed.key]
      have hstep : step b (.Snapshot cursor : Source C T S) = (.ok false, .Snapshot cursor) := by
        simp [Source.step, hout]
      obtain ⟨error, herror⟩ := hfailed.status
      rw [hstep]
      refine ⟨hfailed, hout, by simp, fun hintact => ?_, fun _ => rfl⟩
      have hok : OwnedSnapshotIter.status cursor = .ok () := hintact
      simp [hok] at herror
  | Txn txn stream current =>
      obtain ⟨rfl, hstream⟩ := h
      cases stream with
      | none =>
          refine ⟨⟨rfl, by rintro s ⟨⟩⟩, rfl, by simp [Source.step, Source.pull], ?_,
            fun _ => rfl⟩
          intro hintact
          simp [Source.Intact] at hintact
      | some s =>
          obtain ⟨error, -, hspent⟩ := hstream s rfl
          have hstep : step b (.Txn txn (some s) none : Source C T S) =
              (.error (.failure (.of_error error)),
                .Txn txn (some (TxnScanStream.next s).2) none) := Source.pull_none hspent
          rw [hstep]
          refine ⟨⟨rfl, ?_⟩, rfl, by simp, by simp, ?_⟩
          · rintro s' ⟨⟩
            exact ⟨error, (hspent 0).2, hspent.next⟩
          · intro hcut
            simp [Source.Intact] at hcut

theorem note_known {t : Tracked (Source C T S)} {sought : List Item}
    {result : Except Raised Bool × Source C T S}
    (hruns : (walking b Source.Cut).Runs True sought result)
    (hsettled : ∀ found, result.1 = .ok found → result.2.Settled) :
    Known b (t.note sought result).2 ∧
      (result.1 = .ok true → in_range b result.2 = true) ∧
      (result.1 = .ok false → (t.note sought result).2.beyond = []) := by
  obtain ⟨xs, fin, hyields, hfront, hclean, -⟩ := hruns
  cases xs with
  | nil =>
      cases fin with
      | none =>
          obtain ⟨hstop, hover⟩ := hyields
          obtain rfl : sought = [] := (hclean rfl).symm
          have hbeyond : (t.note [] result).2.beyond = [] := by simp [Tracked.note, hstop]
          refine ⟨.inr ⟨hsettled _ hstop, none, [], none, fun _ => hbeyond, hover.stands, ?_, ?_⟩,
            by simp [hstop], fun _ => hbeyond⟩
          · exact List.nil_prefix
          · exact fun _ => hbeyond.symm
      | some raised =>
          obtain ⟨herror, hcut⟩ := hyields
          exact ⟨.inl hcut, by simp [herror], by simp [herror]⟩
  | cons x xs =>
      obtain ⟨rest, rfl⟩ := hfront
      have hok := hyields.1
      have hbeyond : (t.note (x :: xs ++ rest) result).2.beyond = xs ++ rest := by
        simp [Tracked.note, hok]
      refine ⟨.inr ⟨hsettled _ hok, some x, xs, fin, by simp, hyields.stands, ?_, ?_⟩,
        fun _ => stands_in_range hyields.stands, by simp [hok]⟩
      · rw [hbeyond]
        exact List.prefix_append xs rest
      · intro hfin
        rw [hbeyond]
        exact List.cons.inj (hclean hfin) |>.2

-- A move that passes over nothing known reports no end falsely.
structure Moved (b : Bounds) (Live : Source C T S → Prop) (list : List Item)
    (result : Except Raised Bool × Tracked (Source C T S)) : Prop where
  live : Live result.2.source
  all : result.2.all = list
  known : Known b result.2
  found : result.1 = .ok true → in_range b result.2 = true

variable (cursorLaws : CursorLaws entries True) (walks : Walks b list True Live Source.Cut)
  {t : Tracked (Source C T S)}

include cursorLaws walks

theorem restart_moved (hlive : Live t.source) (hall : t.all = list) :
    Moved b Live list (restart b t) ∧
      ((restart b t).1 = .ok false → (restart b t).2.beyond = []) := by
  have hnote := note_known (t := t) (hall ▸ walks.restart _ hlive)
    (fun _ => Source.restart_settled cursorLaws)
  exact ⟨⟨walks.live_restart _ hlive, hall, hnote.1, hnote.2.1⟩, hnote.2.2⟩

theorem seek_moved (hlive : Live t.source) (hall : t.all = list) (target : Bytes) :
    Moved b Live list (seek b target t) := by
  have hnote := note_known (t := t) (hall ▸ walks.seek _ target hlive)
    (fun _ => Source.seek_settled cursorLaws)
  rw [Tracked.seek_eq]
  exact ⟨walks.live_seek _ target hlive, hall, hnote.1, hnote.2.1⟩

theorem step_moved (hlive : Live t.source) (hall : t.all = list) (hknown : Known b t) :
    Moved b Live list (step b t) ∧
      (t.source.Intact → (step b t).1 = .ok false → (step b t).2.beyond = []) := by
  rcases hknown with hcut | ⟨hsettled, current, xs, fin, -, hstands, hfront, hclean⟩
  · obtain ⟨hcut', -, hnot, hintact, -⟩ := cut_step (b := b) hcut
    exact ⟨⟨walks.live_step _ hlive, hall, .inl hcut', fun hok => absurd hok hnot⟩,
      fun h hok => absurd hok (hintact h)⟩
  · have hnote := note_known (t := t) ⟨xs, fin, hstands.2, hfront, hclean, fun _ => trivial⟩
      (fun _ => Source.step_settled cursorLaws hsettled)
    exact ⟨⟨walks.live_step _ hlive, hall, hnote.1, hnote.2.1⟩, fun _ => hnote.2.2⟩

-- What holds of the iterator throughout a run.
structure Kept (b : Bounds) (Live : Source C T S → Prop) (list : List Item)
    (it : RegolithIter (Tracked (Source C T S))) : Prop where
  bounds : it.bounds = b
  live : Live it.source.source
  all : it.source.all = list
  known : it.reset = false → Known b it.source

variable {it : RegolithIter (Tracked (Source C T S))}

omit cursorLaws walks in
theorem Moved.kept {result : Except Raised Bool × Tracked (Source C T S)}
    (h : Moved b Live list result) {after : RegolithIter (Tracked (Source C T S))}
    (hbounds : after.bounds = b) (hsource : after.source = result.2) : Kept b Live list after :=
  ⟨hbounds, hsource ▸ h.live, hsource ▸ h.all, fun _ => hsource ▸ h.known⟩

theorem Kept.advance (h : Kept b Live list it) : Kept b Live list it.advance.2 := by
  obtain ⟨rfl, hlive, hall, hknown⟩ := h
  cases hreset : it.reset with
  | true =>
      rw [RegolithIter.advance_reset hreset]
      exact (restart_moved cursorLaws walks hlive hall).1.kept rfl rfl
  | false =>
      rw [RegolithIter.advance_step hreset]
      exact (step_moved cursorLaws walks hlive hall (hknown hreset)).1.kept rfl rfl

theorem Kept.advance_in_batch (h : Kept b Live list it) :
    Kept b Live list it.advance_in_batch.2 ∧
      (it.advance_in_batch.1 = .ok true → it.advance_in_batch.2.in_range = true) := by
  obtain ⟨rfl, hlive, hall, hknown⟩ := h
  unfold RegolithIter.advance_in_batch
  split
  · have hmoved := (restart_moved cursorLaws walks hlive hall).1
    exact ⟨hmoved.kept rfl rfl, hmoved.found⟩
  · next hreset =>
      split
      · exact ⟨⟨rfl, hlive, hall, hknown⟩, fun hok => Except.ok.inj hok⟩
      · have hmoved := (step_moved cursorLaws walks hlive hall (hknown (by simpa using hreset))).1
        exact ⟨hmoved.kept rfl rfl, hmoved.found⟩

theorem kept_invariant : RegolithIter.BatchInvariant (Kept b Live list) where
  advance _ h := (h.advance_in_batch cursorLaws walks).1
  batch _ _ _ h := ⟨h.bounds, h.live, h.all, h.known⟩
  pending _ _ h := ⟨h.bounds, h.live, h.all, h.known⟩

theorem Kept.run (h : Kept b Live list it) (call : IterCall) :
    Kept b Live list (call.run it).2 := by
  cases call with
  | next valid err => exact h.advance cursorLaws walks
  | next_batch max_entries out out_len out_count err =>
      exact (kept_invariant cursorLaws walks).next_batch h max_entries out out_len out_count err
  | seek key valid err =>
      simp only [IterCall.run, regolith_iter_seek]
      cases in_bytes key with
      | none => exact h
      | some target =>
          simp only [RegolithIter.seek_eq]
          obtain ⟨rfl, hlive, hall, -⟩ := h
          exact (seek_moved cursorLaws walks hlive hall target).kept rfl rfl
  | reset err => exact ⟨h.bounds, h.live, h.all, fun hreset => Bool.noConfusion hreset⟩
  | key out out_len err => exact h
  | value val val_len err => exact h
  | batch_value idx val val_len err => exact h

-- A step that finds nothing: to be believed where the source is intact, and found
-- nowhere else unless nothing is left.
theorem step_verdict (hlive : Live t.source) (hall : t.all = list) (hknown : Known b t) :
    ((step b t).1 = .ok false → (step b t).2.beyond = []) ↔ (t.source.Intact ∨ t.beyond = []) := by
  by_cases hintact : t.source.Intact
  · have hmoved := (step_moved cursorLaws walks hlive hall hknown).2 hintact
    exact ⟨fun _ => .inl hintact, fun _ => hmoved⟩
  · have hcut : t.source.Cut := by
      rcases hknown with hcut | ⟨hsettled, -⟩
      · exact hcut
      · exact absurd hsettled.intact hintact
    have hstop : (step b t).1 = .ok false := (cut_step hcut).2.2.2.2 hintact
    have hsame : (step b t).2.beyond = t.beyond := by
      have hresult : (step b t.source).1 = .ok false := hstop
      simp only [Tracked.step_eq, Tracked.note, hresult]
    rw [hsame]
    exact ⟨fun h => .inr (h hstop), fun h _ => h.resolve_left hintact⟩

theorem advance_verdict (h : Kept b Live list it) :
    (it.advance.1 = .ok false → it.advance.2.source.beyond = []) ↔
      (it.reset = true ∨ it.source.source.Intact) ∨ it.source.beyond = [] := by
  obtain ⟨rfl, hlive, hall, hknown⟩ := h
  cases hreset : it.reset with
  | true =>
      rw [RegolithIter.advance_reset hreset]
      have hmoved := (restart_moved cursorLaws walks hlive hall).2
      exact ⟨fun _ => .inl (.inl rfl), fun _ => hmoved⟩
  | false =>
      rw [RegolithIter.advance_step hreset]
      have hverdict := step_verdict cursorLaws walks hlive hall (hknown hreset)
      simp only [Bool.false_eq_true, false_or]
      exact hverdict

omit cursorLaws walks in
-- A batch that starts where a seek landed finds nothing.
theorem landed_verdict (hknown : Known b t) (hout : in_range b t.source = false) :
    t.beyond = [] ↔ (t.source.Intact ∧ t.source.Explained) ∨ t.beyond = [] := by
  refine ⟨.inr, ?_⟩
  rintro (⟨hintact, hexplained⟩ | hbeyond)
  · rcases hknown with hcut | ⟨-, current, xs, fin, hnone, hstands, -⟩
    · rcases hsource : t.source with cursor | ⟨txn, stream, current⟩
      · rw [hsource] at hcut hintact
        obtain ⟨error, herror⟩ := hcut.status
        have hok : OwnedSnapshotIter.status cursor = .ok () := hintact
        simp [hok] at herror
      · rw [hsource] at hcut hintact hexplained
        obtain ⟨rfl, hstream⟩ := hcut
        obtain ⟨s, rfl⟩ := Option.isSome_iff_exists.mp hintact
        obtain ⟨error, herror, -⟩ := hstream s rfl
        rcases hexplained with hcurrent | hok
        · simp at hcurrent
        · simp [hok s rfl] at herror
    · have hstanding := stands_in_range hstands
      rw [hout] at hstanding
      exact hnone (by simpa using hstanding.symm)
  · exact hbeyond

omit cursorLaws walks in
theorem out_of_range_of_untrusted (hknown : Known b t)
    (h : ¬(t.source.Intact ∧ t.source.Explained)) : in_range b t.source = false := by
  rcases hknown with hcut | ⟨hsettled, -⟩
  · exact (cut_step hcut).2.1
  · have hexplained : ¬t.source.Explained := fun hexplained => h ⟨hsettled.intact, hexplained⟩
    rcases hsource : t.source with cursor | ⟨txn, stream, current⟩
    · rw [hsource] at hexplained
      exact absurd trivial hexplained
    · rw [hsource] at hexplained
      cases current with
      | none => rfl
      | some entry => exact absurd (.inl rfl) hexplained

theorem advance_in_batch_verdict (h : Kept b Live list it) :
    (it.advance_in_batch.1 = .ok false → it.advance_in_batch.2.source.beyond = []) ↔
      (it.reset = true ∨ it.source.source.Intact ∧
        (it.include_current = true → it.source.source.Explained)) ∨ it.source.beyond = [] := by
  obtain ⟨rfl, hlive, hall, hknown⟩ := h
  cases hreset : it.reset with
  | true =>
      have hmoved := (restart_moved cursorLaws walks hlive hall).2
      simp only [RegolithIter.advance_in_batch, hreset, if_true, true_or, iff_true]
      exact hmoved
  | false =>
      cases hcurrent : it.include_current with
      | false =>
          rw [RegolithIter.advance_in_batch_step hreset hcurrent]
          have hverdict := step_verdict cursorLaws walks hlive hall (hknown hreset)
          simp only [Bool.false_eq_true, false_or, false_imp_iff, and_true]
          exact hverdict
      | true =>
          simp only [RegolithIter.advance_in_batch, hreset, hcurrent, Bool.false_eq_true, if_false,
            if_true, false_or, true_imp_iff, Except.ok.injEq]
          by_cases hout : in_range it.bounds it.source.source = false
          · have hout' : it.in_range = false := hout
            simp only [hout', true_imp_iff]
            exact landed_verdict (hknown hreset) hout
          · have hin : it.in_range ≠ false := hout
            have htrusted := mt (out_of_range_of_untrusted (hknown hreset)) hout
            exact ⟨fun _ => .inl (not_not.mp htrusted), fun _ hfalse => absurd hfalse hin⟩

end Known

section Replies

variable {C T S : Type} [OwnedSnapshotIter C] [TxnScanStream S] [OwnedTransaction T S]

theorem guard_exhausted_iff {err : OutParam} {result : Except Raised Bool} :
    (IterReply.flag (guard err (result.bind (out_bool · .writable)))).Exhausted ↔
      result = .ok false := by
  rcases result with (failure | payload) | found
  · simp [IterReply.Exhausted, guard, Except.bind]
  · simp [IterReply.Exhausted, guard, Except.bind]
  · simp [IterReply.Exhausted, guard, Except.bind, OK]

-- The count of a batch only grows.
theorem gather_count_le {σ : Type} [EntrySource σ] (rounds : Nat) {batch after : KeyBatch}
    {retained : Nat} {it : RegolithIter σ}
    (h : (it.gather rounds batch retained).1 = .ok after) : batch.count ≤ after.count := by
  induction rounds generalizing it batch retained with
  | zero =>
      obtain rfl : batch = after := Except.ok.inj h
      exact le_rfl
  | succ rounds ih =>
      rcases hmove : it.advance_in_batch with ⟨result, next⟩
      simp only [RegolithIter.gather, hmove] at h
      rcases result with (failure | payload) | (_ | _)
      · simp only at h
        split at h
        · simp [fail] at h
        · exact (Except.ok.inj h) ▸ le_rfl
      · simp at h
      · exact (Except.ok.inj h) ▸ le_rfl
      · simp only at h
        split at h
        · exact (Except.ok.inj h) ▸ le_rfl
        · split at h
          · simp [fail] at h
          · split at h
            · exact (Nat.le_succ _).trans (ih h)
            · split at h
              · exact (Except.ok.inj h) ▸ Nat.le_succ _
              · exact (Nat.le_succ _).trans (ih h)

theorem key_of_in_range {b : Bounds} {source : Source C T S} (h : in_range b source = true) :
    (EntrySource.key source).isSome = true := by
  cases source with
  | Snapshot cursor =>
      simp only [Source.entrySource_in_range, Source.in_range, Source.cursor_in_range] at h
      split at h
      · next hkey => simp [EntrySource.key, hkey]
      · simp at h
  | Txn txn stream current =>
      cases current with
      | none => simp [Source.in_range] at h
      | some entry => rfl

-- A batch is empty exactly when its first round finds nothing.
theorem gather_empty_iff {it : RegolithIter (Tracked (Source C T S))} (rounds : Nat)
    (hfound : it.advance_in_batch.1 = .ok true → it.advance_in_batch.2.in_range = true) :
    ((it.gather (rounds + 1) ⟨[], 0⟩ 0).1.map (·.count) = .ok 0 ↔
        it.advance_in_batch.1 = .ok false) ∧
      (it.advance_in_batch.1 = .ok false →
        (it.gather (rounds + 1) ⟨[], 0⟩ 0).2 = it.advance_in_batch.2) := by
  rcases hmove : it.advance_in_batch with ⟨result, next⟩
  rw [hmove] at hfound
  simp only [RegolithIter.gather, hmove]
  rcases result with (failure | payload) | (_ | _)
  · simp [fail, Except.map]
  · simp [Except.map]
  · simp [Except.map]
  · have hin : next.in_range = true := hfound rfl
    obtain ⟨key, hkey⟩ := Option.isSome_iff_exists.mp (key_of_in_range hin)
    have hcurrent : next.current_key = some key := by
      simp only [RegolithIter.current_key, hin, if_true]
      exact hkey
    simp only [hcurrent, Except.ok.injEq, reduceCtorEq, iff_false, false_imp_iff, and_true]
    have hgrown {after : KeyBatch} (h : 1 ≤ after.count) :
        (Except.ok after : Except Raised KeyBatch).map (·.count) ≠ .ok 0 := by
      simp only [Except.map, ne_eq, Except.ok.injEq]
      omega
    have hmore {batch : KeyBatch} {retained : Nat} {it : RegolithIter (Tracked (Source C T S))}
        (h : 1 ≤ batch.count) : (it.gather rounds batch retained).1.map (·.count) ≠ .ok 0 := by
      intro hzero
      cases hresult : (it.gather rounds batch retained).1 with
      | error raised => simp [hresult, Except.map] at hzero
      | ok after =>
          rw [hresult] at hzero
          exact hgrown (h.trans (gather_count_le rounds hresult)) hzero
    split
    · simp [fail, Except.map]
    · split
      · exact hmore le_rfl
      · split
        · exact hgrown le_rfl
        · exact hmore le_rfl

end Replies

section Exact

variable {C T S : Type} [OwnedSnapshotIter C] [TxnScanStream S] [OwnedTransaction T S]
  {entries : C → List Item} {merged : T → List Item} {b : Bounds} {list : List Item}
  {Live : Source C T S → Prop} {it : RegolithIter (Tracked (Source C T S))}

theorem batch_exhausted_iff {err : OutParam} {result : Except Raised KeyBatch} :
    (IterReply.batch (guard err result)).Exhausted ↔ result.map (·.count) = .ok 0 := by
  rcases result with (failure | payload) | batch
  · simp [IterReply.Exhausted, guard, Except.map]
  · simp [IterReply.Exhausted, guard, Except.map]
  · simp [IterReply.Exhausted, guard, Except.map, OK]

-- One call: an end it reports is the end of the range exactly in the trusted states.
theorem call_verdict (cursorLaws : CursorLaws entries True) (walks : Walks b list True Live Source.Cut)
    (h : Kept b Live list it) {call : IterCall} (hasks : call.Asks) :
    ((call.run it).1.Exhausted → (call.run it).2.source.beyond = []) ↔
      call.Trusted it.untracked ∨ it.source.beyond = [] := by
  cases call with
  | next valid err =>
      obtain rfl : valid = .writable := hasks
      simp only [IterCall.run, regolith_iter_next, guard_exhausted_iff]
      exact advance_verdict cursorLaws walks h
  | next_batch max_entries out out_len out_count err =>
      obtain ⟨hmax, rfl, rfl, rfl⟩ := hasks
      cases hpending : it.pending with
      | some failure =>
          simp only [IterCall.run, RegolithIter.next_batch_pending hpending hmax]
          have hfailed : ¬(IterReply.batch (guard err (fail failure))).Exhausted := by
            simp [IterReply.Exhausted]
          have htrusted : (IterCall.next_batch max_entries .writable .writable .writable err).Trusted
              it.untracked := .inl (by simp [RegolithIter.untracked, hpending])
          exact ⟨fun _ => .inl htrusted, fun _ hexhausted => absurd hexhausted hfailed⟩
      | none =>
          obtain ⟨rounds, rfl⟩ := Nat.exists_eq_succ_of_ne_zero hmax
          have hinvalidated : Kept b Live list it.invalidate_batch :=
            ⟨h.bounds, h.live, h.all, h.known⟩
          have hfirst := hinvalidated.advance_in_batch cursorLaws walks
          have hempty := gather_empty_iff rounds hfirst.2
          have hverdict := advance_in_batch_verdict cursorLaws walks hinvalidated
          have hreply : (IterReply.batch (regolith_iter_next_batch it (rounds + 1) .writable .writable
                .writable err).1).Exhausted ↔ it.invalidate_batch.advance_in_batch.1 = .ok false := by
            rw [RegolithIter.next_batch_gather hpending hmax, ← hempty.1]
            rcases it.invalidate_batch.gather (rounds + 1) ⟨[], 0⟩ 0 with ⟨result | result, after⟩
            · exact batch_exhausted_iff
            · exact batch_exhausted_iff
          have hsource (hstop : it.invalidate_batch.advance_in_batch.1 = .ok false) :
              (regolith_iter_next_batch it (rounds + 1) .writable .writable .writable err).2.source =
                it.invalidate_batch.advance_in_batch.2.source := by
            rw [RegolithIter.next_batch_gather hpending hmax, ← hempty.2 hstop]
            rcases it.invalidate_batch.gather (rounds + 1) ⟨[], 0⟩ 0 with ⟨result | result, after⟩
            · rfl
            · rfl
          have htrusted : (IterCall.next_batch (rounds + 1) .writable .writable .writable err).Trusted
                it.untracked ↔ it.reset = true ∨ it.source.source.Intact ∧
                  (it.include_current = true → it.source.source.Explained) := by
            simp only [IterCall.Trusted, RegolithIter.untracked, hpending, Option.isSome_none,
              Bool.false_eq_true, false_or]
          rw [htrusted]
          refine Iff.trans ?_ hverdict
          constructor
          · intro hhonest hstop
            rw [← hsource hstop]
            exact hhonest (hreply.mpr hstop)
          · intro hhonest hexhausted
            have hstop := hreply.mp hexhausted
            exact (congrArg Tracked.beyond (hsource hstop)).trans (hhonest hstop)
  | seek key valid err => exact hasks.elim
  | reset err => exact hasks.elim
  | key out out_len err => exact hasks.elim
  | value val val_len err => exact hasks.elim
  | batch_value idx val val_len err => exact hasks.elim

omit [OwnedTransaction T S] in
theorem step_with_handle (b : Bounds) (txn : TxnInner T) (source : Source C T S) :
    (source.with_handle txn).step b =
      ((source.step b).1, (source.step b).2.with_handle txn) := by
  cases source with
  | Snapshot cursor =>
      simp only [Source.with_handle, Source.step]
      split <;> rfl
  | Txn old stream current =>
      cases stream with
      | none => rfl
      | some s =>
          simp only [Source.with_handle, Source.step, Source.pull]
          rcases TxnScanStream.next s with ⟨_ | ⟨key, value⟩, s'⟩
          · simp only
            cases TxnScanStream.status s' <;> rfl
          · rfl

-- What is known of a source does not depend on the transaction behind it.
theorem unseen_with_handle (b : Bounds) (txn : TxnInner T) :
    (walking b (Source.Cut (C := C) (S := S))).Unseen (Source.with_handle txn) where
  step source := step_with_handle b txn source
  shows := by
    rintro (_ | x) (cursor | ⟨old, stream, current⟩) h
    · exact h
    · exact h
    · exact h
    · exact h
  cut := by
    rintro (cursor | ⟨old, stream, current⟩) h
    · exact h
    · exact h

theorem Known.with_handle {t : Tracked (Source C T S)} (h : Known b t) (txn : TxnInner T) :
    Known b { t with source := t.source.with_handle txn } := by
  rcases h with hcut | ⟨hsettled, current, xs, fin, hnone, hstands, hfront, hclean⟩
  · exact .inl ((unseen_with_handle b txn).cut _ hcut)
  · refine .inr ⟨?_, current, xs, fin, hnone, (unseen_with_handle b txn).stands hstands, hfront,
      hclean⟩
    rcases hsource : t.source with cursor | ⟨old, stream, current⟩
    · rw [hsource] at hsettled
      exact hsettled
    · rw [hsource] at hsettled
      exact hsettled

-- The sources an iterator starts from, over a store or a transaction with these entries.
def Opened (entries : C → List Item) (merged : T → List Item) (list : List Item) :
    Source C T S → Prop
  | .Snapshot cursor => entries cursor = list
  | .Txn txn stream current => txn.Serves merged True list ∧ stream = none ∧ current = none

theorem Kept.event (cursorLaws : CursorLaws entries True) (txnLaws : TransactionLaws merged True)
    (h : Kept b (fun source => Source.OverSnapshot entries list source ∨
      Source.OverTxn merged True list source) (b.listing list) it) (event : IterEvent T)
    (hhandle : ∀ txn, event = .handle txn → txn.Serves merged True list) :
    Kept b (fun source => Source.OverSnapshot entries list source ∨
      Source.OverTxn merged True list source) (b.listing list) (event.applyTracked it) := by
  have walks := (Source.snapshot_walks (T := T) (S := S) cursorLaws b list).or
    (Source.txn_walks (C := C) txnLaws b list)
  cases event with
  | call made => exact h.run cursorLaws walks made
  | handle txn =>
      refine ⟨h.bounds, ?_, h.all, fun hreset => (h.known hreset).with_handle txn⟩
      have hlive := h.live
      simp only [IterEvent.applyTracked]
      rcases hsource : it.source.source with cursor | ⟨old, stream, current⟩
      · rw [hsource] at hlive
        exact .inl (hlive.resolve_right id)
      · exact .inr (hhandle txn rfl)

theorem Kept.events (cursorLaws : CursorLaws entries True) (txnLaws : TransactionLaws merged True)
    (h : Kept b (fun source => Source.OverSnapshot entries list source ∨
      Source.OverTxn merged True list source) (b.listing list) it) {events : List (IterEvent T)}
    (hhandles : ∀ txn, .handle txn ∈ events → txn.Serves merged True list) :
    Kept b (fun source => Source.OverSnapshot entries list source ∨
      Source.OverTxn merged True list source) (b.listing list)
      (events.foldl IterEvent.applyTracked it) := by
  induction events generalizing it with
  | nil => exact h
  | cons event events ih =>
      have hevent := h.event cursorLaws txnLaws event fun txn htxn => hhandles txn (by simp [htxn])
      exact ih hevent fun txn htxn => hhandles txn (by simp [htxn])

-- Throughout a run, whatever fails in it: an end of the range that a call reports is
-- one exactly where the call can be trusted, or where nothing is left anyway.
theorem exhaustion_exact (cursorLaws : CursorLaws entries True)
    (txnLaws : TransactionLaws merged True) (b : Bounds) (list : List Item)
    {source : Source C T S} (hopened : Opened entries merged list source)
    (events : List (IterEvent T))
    (hhandles : ∀ txn, .handle txn ∈ events → txn.Serves merged True list) :
    let tracked := events.foldl IterEvent.applyTracked
      (.from_source (Tracked.start source (b.listing list)) b)
    let it := events.foldl IterEvent.apply (.from_source source b)
    tracked.untracked = it ∧
      ∀ call : IterCall, call.Asks →
        (((call.run it).1.Exhausted → (call.run tracked).2.source.beyond = []) ↔
          call.Trusted it ∨ tracked.source.beyond = []) := by
  intro tracked it
  have huntracked : tracked.untracked = it := IterEvent.foldl_untracked _ events
  have walks := (Source.snapshot_walks (T := T) (S := S) cursorLaws b list).or
    (Source.txn_walks (C := C) txnLaws b list)
  have hkept : Kept b (fun source => Source.OverSnapshot entries list source ∨
      Source.OverTxn merged True list source) (b.listing list) tracked := by
    have hstart : Kept b (fun source => Source.OverSnapshot entries list source ∨
        Source.OverTxn merged True list source) (b.listing list)
        (.from_source (Tracked.start source (b.listing list)) b) := by
      refine ⟨rfl, ?_, rfl, fun hreset => by simp [RegolithIter.from_source] at hreset⟩
      cases source with
      | Snapshot cursor => exact .inl hopened
      | Txn txn stream current => exact .inr hopened.1
    exact hstart.events cursorLaws txnLaws hhandles
  refine ⟨huntracked, fun call hasks => ?_⟩
  have hverdict := call_verdict cursorLaws walks hkept hasks
  rw [(tracked.run_untracked call).1, huntracked] at hverdict
  exact hverdict

-- A snapshot of three entries whose second cannot be read.
def brokenSecond : Source (ListCursor (· == [2])) (ListTxn (· == [2])) (ListStream (· == [2])) :=
  .Snapshot (.start _ (.ofPairs [([1], []), ([2], []), ([3], [])]))

def brokenSecondList : List Item := [⟨[1], []⟩, ⟨[2], []⟩, ⟨[3], []⟩]

theorem exhaustion_exact_broken_second :
    let b : Bounds := ⟨none, none, false, false⟩
    let tracked := [.call (.next_batch 8 .writable .writable .writable .writable)].foldl
      IterEvent.applyTracked (.from_source (Tracked.start brokenSecond (b.listing brokenSecondList)) b)
    let it := [.call (.next_batch 8 .writable .writable .writable .writable)].foldl
      IterEvent.apply (.from_source brokenSecond b)
    tracked.untracked = it ∧
      ∀ call : IterCall, call.Asks →
        (((call.run it).1.Exhausted → (call.run tracked).2.source.beyond = []) ↔
          call.Trusted it ∨ tracked.source.beyond = []) := by
  have hbad : ∃ key : Bytes, (key == [2]) = true := ⟨[2], rfl⟩
  exact exhaustion_exact (ListCursor.faultyLaws hbad) (ListTxn.faultyLaws hbad) _ brokenSecondList
    (show Opened _ _ _ brokenSecond from rfl) _ (by simp)

-- After a batch that the failure has cut short, a single step reports the end of the
-- range with two entries still beyond.
theorem end_reported_falsely :
    let b : Bounds := ⟨none, none, false, false⟩
    let tracked := IterEvent.applyTracked
      (.from_source (Tracked.start brokenSecond (b.listing brokenSecondList)) b)
      (.call (.next_batch 8 .writable .writable .writable .writable))
    let call : IterCall := .next .writable .writable
    ¬((call.run tracked.untracked).1.Exhausted → (call.run tracked).2.source.beyond = []) :=
  fun honest => absurd (honest ⟨rfl, rfl⟩) (by decide)

end Exact

end Regolith.Ffi
