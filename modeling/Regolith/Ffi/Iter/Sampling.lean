import Regolith.Ffi.Iter.Exhaustion
import Regolith.Ffi.Iter.Position

-- Which entries a walk is over: a source is sampled when a walk over it begins, and
-- what becomes of the transaction later does not show.
namespace Regolith.Ffi

open EntrySource

variable {C T S : Type}

section Samples

-- What a walk that begins now is over.
def Source.view (entries : C → List Item) (merged : T → List Item) : Source C T S → List Item
  | .Snapshot cursor => entries cursor
  | .Txn txn _ _ => (txn.txn.value.map merged).getD []

-- Whether a call begins a walk.
def IterCall.samples {σ : Type} (it : RegolithIter σ) : IterCall → Bool
  | .next _ _ => it.reset
  | .next_batch max_entries out out_len out_count _ =>
      it.reset && it.pending.isNone && decide (max_entries ≠ 0 ∧ out = .writable ∧
        out_len = .writable ∧ out_count = .writable)
  | .seek target _ _ => (in_bytes target).isSome
  | _ => false

-- An iterator, and the entries that its walk is over.
structure Sampled (C T S : Type) where
  it : RegolithIter (Source C T S)
  view : List Item

variable [OwnedSnapshotIter C] [TxnScanStream S] [OwnedTransaction T S]

def IterEvent.sample (entries : C → List Item) (merged : T → List Item) (s : Sampled C T S)
    (event : IterEvent T) : Sampled C T S :=
  let view :=
    match event with
    | .call made => if made.samples s.it then s.it.source.view entries merged else s.view
    | .handle _ => s.view
  ⟨event.apply s.it, view⟩

end Samples

-- `xs` comes next in a list, and goes on to its end unless something fails behind it.
def Ahead (list xs : List Item) (fin : Option Raised) : Prop :=
  ∃ front back, list = front ++ xs ++ back ∧ (fin = none → back = [])

section Ahead

variable {list xs taken : List Item} {x : Item} {fin : Option Raised}

theorem Ahead.tail (h : Ahead list (x :: xs) fin) : Ahead list xs fin := by
  obtain ⟨front, back, rfl, hclean⟩ := h
  exact ⟨front ++ [x], back, by simp, hclean⟩

theorem ahead_of_suffix {rest : List Item} (hsuffix : rest <:+ list) (hfront : xs <+: rest)
    (hclean : fin = none → xs = rest) : Ahead list xs fin := by
  obtain ⟨front, rfl⟩ := hsuffix
  obtain ⟨back, rfl⟩ := hfront
  exact ⟨front, back, by simp, fun hfin => by simpa using hclean hfin⟩

theorem Ahead.infix (h : Ahead list xs fin) (htaken : taken <+: xs) : taken <:+: list := by
  obtain ⟨front, back, rfl, -⟩ := h
  obtain ⟨rest, rfl⟩ := htaken
  exact ⟨front, rest ++ back, by simp⟩

theorem Ahead.suffix (h : Ahead list xs none) : xs <:+ list := by
  obtain ⟨front, back, rfl, hclean⟩ := h
  exact ⟨front, by simp [hclean rfl]⟩

end Ahead

variable [OwnedSnapshotIter C] [TxnScanStream S] [OwnedTransaction T S]
  {entries : C → List Item} {merged : T → List Item} {b : Bounds}

section Begin

omit [OwnedSnapshotIter C] [TxnScanStream S] [OwnedTransaction T S] in
theorem serves_view (merged : T → List Item) (txn : TxnInner T) :
    txn.Serves merged True ((txn.txn.value.map merged).getD []) := by
  refine ⟨fun t ht => ?_, by simp⟩
  rw [Option.mem_def.mp ht]
  rfl

-- A walk that begins goes over the listing of what is sampled.
theorem Source.restart_ahead (cursorLaws : CursorLaws entries True)
    (txnLaws : TransactionLaws merged True) (b : Bounds) (source : Source C T S) :
    ∃ xs fin, (walking b Source.Cut).Yields fin xs (EntrySource.restart b source) ∧
      Ahead (b.listing (source.view entries merged)) xs fin := by
  have hruns : (walking b Source.Cut).Runs True (b.listing (source.view entries merged))
      (EntrySource.restart b source) := by
    cases source with
    | Snapshot cursor => exact (Source.snapshot_walks cursorLaws b (entries cursor)).restart _ rfl
    | Txn txn stream current =>
        exact (Source.txn_walks txnLaws b _).restart (.Txn txn stream current)
          (serves_view merged txn)
  obtain ⟨xs, fin, hyields, hfront, hclean, -⟩ := hruns
  exact ⟨xs, fin, hyields, ahead_of_suffix List.suffix_rfl hfront hclean⟩

theorem Source.view_ascending (cursorLaws : CursorLaws entries True)
    (txnLaws : TransactionLaws merged True) (source : Source C T S) :
    Ascending (source.view entries merged) := by
  cases source with
  | Snapshot cursor => exact cursorLaws.ascending cursor
  | Txn txn stream current =>
      simp only [Source.view]
      cases txn.txn.value with
      | none => exact List.Pairwise.nil
      | some t => exact txnLaws.ascending t

theorem Source.seek_ahead (cursorLaws : CursorLaws entries True)
    (txnLaws : TransactionLaws merged True) (b : Bounds) (source : Source C T S) (target : Bytes) :
    ∃ xs fin, (walking b Source.Cut).Yields fin xs (EntrySource.seek b target source) ∧
      Ahead (b.listing (source.view entries merged)) xs fin := by
  have hruns : (walking b Source.Cut).Runs True
      ((b.listing (source.view entries merged)).filter (b.reached target))
      (EntrySource.seek b target source) := by
    cases source with
    | Snapshot cursor =>
        exact (Source.snapshot_walks cursorLaws b (entries cursor)).seek _ target rfl
    | Txn txn stream current =>
        exact (Source.txn_walks txnLaws b _).seek (.Txn txn stream current) target
          (serves_view merged txn)
  have hsorted := b.listing_sorted (source.view_ascending cursorLaws txnLaws)
  rw [SortedWalk.filter_eq_drop_findIdx hsorted (Bounds.reached_upward target)] at hruns
  obtain ⟨xs, fin, hyields, hfront, hclean, -⟩ := hruns
  exact ⟨xs, fin, hyields, ahead_of_suffix (List.drop_suffix _ _) hfront hclean⟩

end Begin

-- Where an iterator is on its walk over a list: about to begin, on an entry that a seek
-- has landed on, behind one that it has moved past, beyond all of them, or cut off.
inductive Underway (list : List Item) (it : RegolithIter (Source C T S)) : Prop where
  | restarting (hreset : it.reset = true)
  | landed {x : Item} {xs : List Item} {fin : Option Raised} (hreset : it.reset = false)
      (hcurrent : it.include_current = true)
      (hstands : (walking it.bounds Source.Cut).Stands fin (some x) xs it.source)
      (hahead : Ahead list (x :: xs) fin)
  | moved {xs : List Item} {fin : Option Raised} (hreset : it.reset = false)
      (hcurrent : it.include_current = false)
      (hyields : (walking it.bounds Source.Cut).Yields fin xs (step it.bounds it.source))
      (hahead : Ahead list xs fin)
  | beyond (hreset : it.reset = false) (hover : (walking it.bounds Source.Cut).Over it.source)
  | cut (hreset : it.reset = false) (hcut : it.source.Cut)

section Underway

variable {list : List Item} {it it' : RegolithIter (Source C T S)} {xs : List Item}
  {fin : Option Raised}

-- Nothing but the position counts.
theorem Underway.congr (h : Underway list it) (hbounds : it'.bounds = it.bounds)
    (hsource : it'.source = it.source) (hreset : it'.reset = it.reset)
    (hcurrent : it'.include_current = it.include_current) : Underway list it' := by
  obtain ⟨bounds, source, reset, include_current, batch_values, batch_count, pending⟩ := it
  obtain ⟨bounds', source', reset', include_current', batch_values', batch_count', pending'⟩ := it'
  simp only at hbounds hsource hreset hcurrent
  subst hbounds hsource hreset hcurrent
  cases h with
  | restarting hreset => exact .restarting hreset
  | landed hreset hcurrent hstands hahead => exact .landed hreset hcurrent hstands hahead
  | moved hreset hcurrent hyields hahead => exact .moved hreset hcurrent hyields hahead
  | beyond hreset hover => exact .beyond hreset hover
  | cut hreset hcut => exact .cut hreset hcut

-- After a move, whichever it was.
theorem underway_after {result : Except Raised Bool × Source C T S}
    (hyields : (walking it.bounds Source.Cut).Yields fin xs result) (hahead : Ahead list xs fin)
    (hsource : it.source = result.2) (hreset : it.reset = false) : Underway list it := by
  rw [← Prod.mk.eta (p := result), ← hsource] at hyields
  cases xs with
  | nil =>
      cases fin with
      | none => exact .beyond hreset hyields.2
      | some raised => exact .cut hreset hyields.2
  | cons x xs =>
      cases hcurrent : it.include_current with
      | true => exact .landed hreset hcurrent hyields.stands hahead
      | false => exact .moved hreset hcurrent hyields.2.2 hahead.tail

-- A step, from wherever the iterator is.
theorem Underway.step (h : Underway list it) (hreset : it.reset = false)
    (hbounds : it'.bounds = it.bounds)
    (hsource : it'.source = (EntrySource.step it.bounds it.source).2)
    (hreset' : it'.reset = false) : Underway list it' := by
  cases h with
  | restarting hrestart => simp [hreset] at hrestart
  | landed _ _ hstands hahead => exact underway_after (hbounds ▸ hstands.2) hahead.tail hsource hreset'
  | moved _ _ hyields hahead => exact underway_after (hbounds ▸ hyields) hahead hsource hreset'
  | beyond _ hover =>
      refine .beyond hreset' ?_
      rw [hbounds, hsource]
      exact hover.next
  | cut _ hcut =>
      refine .cut hreset' ?_
      rw [hsource]
      exact (cut_step hcut).1

theorem Underway.advance (h : Underway list it) (hreset : it.reset = false) :
    Underway list it.advance.2 := by
  rw [RegolithIter.advance_step hreset]
  exact h.step hreset rfl rfl hreset

theorem Underway.advance_in_batch (h : Underway list it) (hreset : it.reset = false) :
    Underway list it.advance_in_batch.2 := by
  cases hcurrent : it.include_current with
  | false =>
      rw [RegolithIter.advance_in_batch_step hreset hcurrent]
      exact h.step hreset rfl rfl hreset
  | true =>
      rw [RegolithIter.advance_in_batch_landed hreset hcurrent]
      cases h with
      | restarting hrestart => simp [hreset] at hrestart
      | landed _ _ hstands hahead => exact .moved hreset rfl hstands.2 hahead.tail
      | moved _ hmoved => simp [hcurrent] at hmoved
      | beyond _ hover => exact .beyond hreset hover
      | cut _ hcut => exact .cut hreset hcut

theorem underway_invariant (b : Bounds) (list : List Item) :
    RegolithIter.BatchInvariant fun it : RegolithIter (Source C T S) =>
      it.bounds = b ∧ it.reset = false ∧ Underway list it where
  advance it h := by
    obtain ⟨hbounds, hreset, hunderway⟩ := h
    refine ⟨(RegolithIter.advance_in_batch_bounds it).trans hbounds, ?_,
      hunderway.advance_in_batch hreset⟩
    rw [RegolithIter.advance_in_batch_fields]
  batch _ _ _ h := ⟨h.1, h.2.1, h.2.2.congr rfl rfl rfl rfl⟩
  pending _ _ h := ⟨h.1, h.2.1, h.2.2.congr rfl rfl rfl rfl⟩

theorem Underway.with_handle (h : Underway list it) (txn : TxnInner T) :
    Underway list { it with source := it.source.with_handle txn } := by
  have unseen := unseen_with_handle (C := C) (S := S) it.bounds txn
  cases h with
  | restarting hreset => exact .restarting hreset
  | landed hreset hcurrent hstands hahead =>
      exact .landed hreset hcurrent (unseen.stands hstands) hahead
  | moved hreset hcurrent hyields hahead =>
      have hstep : EntrySource.step it.bounds (it.source.with_handle txn) = _ :=
        unseen.step it.source
      refine .moved hreset hcurrent ?_ hahead
      simp only [hstep]
      exact unseen.yields hyields
  | beyond hreset hover => exact .beyond hreset (unseen.isOver hover)
  | cut hreset hcut => exact .cut hreset (unseen.cut _ hcut)

end Underway

section Events

-- What holds throughout a run, whatever fails in it and whatever else is done to the
-- transaction.
structure Sampled.Kept (b : Bounds) (s : Sampled C T S) : Prop where
  bounds : s.it.bounds = b
  underway : Underway (b.listing s.view) s.it

variable {s : Sampled C T S} (cursorLaws : CursorLaws entries True)
  (txnLaws : TransactionLaws merged True)

include cursorLaws txnLaws

theorem Sampled.Kept.next (h : s.Kept b) (valid err : OutParam) :
    (IterEvent.sample entries merged s (.call (.next valid err))).Kept b := by
  obtain ⟨rfl, hunderway⟩ := h
  cases hreset : s.it.reset with
  | false =>
      refine ⟨?_, ?_⟩
      · simp [IterEvent.sample, IterEvent.apply, IterCall.run, regolith_iter_next,
          RegolithIter.advance_step hreset, RegolithIter.step]
      · simp only [IterEvent.sample, IterCall.samples, hreset, Bool.false_eq_true, if_false]
        exact hunderway.advance hreset
  | true =>
      obtain ⟨xs, fin, hyields, hahead⟩ :=
        s.it.source.restart_ahead cursorLaws txnLaws s.it.bounds
      have hadvance := RegolithIter.advance_reset hreset
      refine ⟨?_, ?_⟩
      · simp [IterEvent.sample, IterEvent.apply, IterCall.run, regolith_iter_next, hadvance,
          RegolithIter.restart]
      · simp only [IterEvent.sample, IterCall.samples, hreset, if_true, IterEvent.apply,
          IterCall.run, regolith_iter_next, hadvance]
        exact underway_after hyields hahead rfl rfl

theorem Sampled.Kept.next_batch (h : s.Kept b) (max_entries : Nat)
    (out out_len out_count err : OutParam) :
    (IterEvent.sample entries merged s
      (.call (.next_batch max_entries out out_len out_count err))).Kept b := by
  obtain ⟨rfl, hunderway⟩ := h
  have hbounds := (RegolithIter.keepsBounds s.it.bounds).next_batch rfl max_entries out out_len
    out_count err
  refine ⟨hbounds, ?_⟩
  by_cases haccepted : max_entries ≠ 0 ∧ out = .writable ∧ out_len = .writable ∧
      out_count = .writable
  · obtain ⟨hmax, rfl, rfl, rfl⟩ := haccepted
    simp only [IterEvent.sample, IterEvent.apply, IterCall.run, IterCall.samples]
    cases hpending : s.it.pending with
    | some failure =>
        simp only [Option.isNone_some, Bool.and_false, Bool.false_and, Bool.false_eq_true, if_false,
          RegolithIter.next_batch_pending hpending hmax]
        exact hunderway.congr rfl rfl rfl rfl
    | none =>
        have hinvariant := underway_invariant (C := C) (T := T) (S := S) s.it.bounds
        cases hreset : s.it.reset with
        | false =>
            simp only [Bool.false_and, Bool.false_eq_true, if_false]
            exact ((hinvariant _).next_batch ⟨rfl, hreset, hunderway⟩ max_entries .writable
              .writable .writable err).2.2
        | true =>
            simp only [hmax, Bool.true_and, Option.isNone_none, ne_eq, not_false_eq_true, and_self,
              decide_true, if_true]
            obtain ⟨xs, fin, hyields, hahead⟩ :=
              s.it.source.restart_ahead cursorLaws txnLaws s.it.bounds
            have hfirst : s.it.invalidate_batch.advance_in_batch =
                { s.it.invalidate_batch with reset := false, include_current := false }.restart := by
              simp [RegolithIter.advance_in_batch, RegolithIter.invalidate_batch, hreset]
            refine ((hinvariant _).next_batch_after hpending hmax err ?_).2.2
            rw [hfirst]
            exact ⟨rfl, rfl, underway_after hyields hahead rfl rfl⟩
  · have hbad : out = .null ∨ out_len = .null ∨ out_count = .null ∨ max_entries = 0 := by
      cases out <;> cases out_len <;> cases out_count <;> simp_all
    simp only [IterEvent.sample, IterEvent.apply, IterCall.run, IterCall.samples, haccepted,
      decide_false, Bool.and_false, Bool.false_eq_true, if_false,
      (RegolithIter.next_batch_rejected hbad err).2]
    exact hunderway

theorem Sampled.Kept.seek (h : s.Kept b) (target : InBytes) (valid err : OutParam) :
    (IterEvent.sample entries merged s (.call (.seek target valid err))).Kept b := by
  obtain ⟨rfl, hunderway⟩ := h
  cases htarget : in_bytes target with
  | none =>
      simp only [IterEvent.sample, IterEvent.apply, IterCall.run, IterCall.samples,
        regolith_iter_seek, htarget, Option.isSome_none, Bool.false_eq_true, if_false]
      exact ⟨rfl, hunderway⟩
  | some key =>
      obtain ⟨xs, fin, hyields, hahead⟩ :=
        s.it.source.seek_ahead cursorLaws txnLaws s.it.bounds key
      simp only [IterEvent.sample, IterEvent.apply, IterCall.run, IterCall.samples,
        regolith_iter_seek, htarget, Option.isSome_some, if_true, RegolithIter.seek_eq]
      exact ⟨rfl, underway_after hyields hahead rfl rfl⟩

theorem Sampled.Kept.event (h : s.Kept b) (event : IterEvent T) :
    (IterEvent.sample entries merged s event).Kept b := by
  cases event with
  | handle txn => exact ⟨h.bounds, h.underway.with_handle txn⟩
  | call made =>
      cases made with
      | next valid err => exact h.next cursorLaws txnLaws valid err
      | next_batch max_entries out out_len out_count err =>
          exact h.next_batch cursorLaws txnLaws max_entries out out_len out_count err
      | seek target valid err => exact h.seek cursorLaws txnLaws target valid err
      | reset err => exact ⟨h.bounds, .restarting rfl⟩
      | key out out_len err => exact ⟨h.bounds, h.underway⟩
      | value val val_len err => exact ⟨h.bounds, h.underway⟩
      | batch_value idx val val_len err => exact ⟨h.bounds, h.underway⟩

theorem Sampled.Kept.events (h : s.Kept b) (events : List (IterEvent T)) :
    (events.foldl (IterEvent.sample entries merged) s).Kept b := by
  induction events generalizing s with
  | nil => exact h
  | cons event events ih => exact ih (h.event cursorLaws txnLaws event)

omit cursorLaws txnLaws in
theorem sampled_opened (source : Source C T S) (b : Bounds) :
    (⟨.from_source source b, []⟩ : Sampled C T S).Kept b :=
  ⟨rfl, .restarting rfl⟩

end Events

end Regolith.Ffi
