import Mathlib.Data.List.Flatten
import Regolith.Go.Iter.Readers

-- An iterator of a transaction that is written to while it is read.
namespace Regolith.Go

open Ffi Ffi.RegolithIter

section Spec

inductive Write where
  | Set (key value : Bytes)
  | Delete (key : Bytes)

-- A write, merged over entries.
def Write.merge (write : Write) (entries : List Item) : List Item :=
  match write with
  | .Set key value =>
      entries.filter (·.key < key) ++ ⟨key, value⟩ :: entries.filter (key < ·.key)
  | .Delete key => entries.filter (·.key ≠ key)

inductive TxnEvent where
  | write (made : Write)
  | call (made : CursorCall)

inductive TxnOutcome where
  | wrote (err : Option GoError)
  | called (outcome : Outcome)

-- A plain cursor, with a list of its own: what the transaction held in the range when
-- the list was sampled. `contents` is what the transaction holds by now, the snapshot it
-- began at with its buffered writes merged over it.
structure Sampler where
  contents : List Item
  list : List Item
  position : Nat

-- The first `Next` after the iterator is made or reset samples, and so does every `Seek`.
def Sampler.samples (s : Sampler) : CursorCall → Bool
  | .Next => s.position == 0
  | .Seek _ => true
  | _ => false

def Sampler.call (opts : IterOptions) (s : Sampler) (made : CursorCall) : Outcome × Sampler :=
  let list := if s.samples made then opts.range s.contents else s.list
  let (outcome, position) := made.plain opts list s.position
  (outcome, ⟨s.contents, list, position⟩)

-- What a write leaves behind when the engine panics in it is the engine's affair.
inductive Sampler.Step (opts : IterOptions) :
    Sampler → TxnEvent × TxnOutcome → Sampler → Prop where
  | buffered (s : Sampler) (made : Write) :
      Sampler.Step opts s (.write made, .wrote none) ⟨made.merge s.contents, s.list, s.position⟩
  | refused (s : Sampler) (made : Write) (err : GoError) (contents : List Item)
      (h : err.sentinel ≠ .ErrPanic → contents = s.contents) :
      Sampler.Step opts s (.write made, .wrote (some err)) ⟨contents, s.list, s.position⟩
  | call (s : Sampler) (made : CursorCall) :
      Sampler.Step opts s (.call made, .called (s.call opts made).1) (s.call opts made).2

theorem Sampler.Step.outcome {opts : IterOptions} {s s' : Sampler} {made : CursorCall}
    {outcome : TxnOutcome} (h : Sampler.Step opts s (.call made, outcome) s') :
    outcome = .called (s.call opts made).1 := by
  cases h
  rfl

end Spec

section Model

variable {C T S : Type} [OwnedSnapshotIter C] [TxnScanStream S] [OwnedTransaction T S]

-- A transaction and an iterator opened from it. They share the handle.
structure Pair (C T S : Type) where
  t : TxnInner T
  it : Iter (Source C T S)

def Write.run (t : TxnInner T) : Write → Option GoError × TxnInner T
  | .Set key value => Txn.Set false false t key value
  | .Delete key => Txn.Delete false false t key

def Iter.with_handle (it : Iter (Source C T S)) (t : TxnInner T) : Iter (Source C T S) :=
  { it with i := { it.i with source := it.i.source.with_handle t } }

def TxnEvent.run (p : Pair C T S) : TxnEvent → TxnOutcome × Pair C T S
  | .write made =>
      let (err, t) := made.run p.t
      (.wrote err, ⟨t, p.it.with_handle t⟩)
  | .call made =>
      let (outcome, it) := made.run p.it
      (.called outcome, ⟨it.i.source.handle.getD p.t, it⟩)

theorem TxnEvent.run_write (p : Pair C T S) (made : Write) : (TxnEvent.write made).run p =
    (.wrote (made.run p.t).1, ⟨(made.run p.t).2, p.it.with_handle (made.run p.t).2⟩) := rfl

theorem TxnEvent.run_call (p : Pair C T S) (made : CursorCall) : (TxnEvent.call made).run p =
    (.called (made.run p.it).1,
      ⟨(made.run p.it).2.i.source.handle.getD p.t, (made.run p.it).2⟩) := rfl

-- What a transaction holds.
def holds (merged : T → List Item) (t : TxnInner T) : List Item :=
  (t.txn.value.map merged).getD []

-- A walk over these takes frames and values that fit the integers they are measured with.
def Fitting (keysOnly : Bool) (xs : List Item) : Prop :=
  BatchesFit keysOnly xs ∧ ValuesFit keysOnly xs

-- Where a walk begins, what is sampled fits from there on.
def TxnEvent.Measured (opts : IterOptions) (merged : T → List Item) (p : Pair C T S) :
    TxnEvent → Prop
  | .call .Next => p.it.i.reset = true → Fitting opts.KeysOnly (opts.range (holds merged p.t))
  | .call (.Seek target) =>
      let list := opts.range (holds merged p.t)
      Fitting opts.KeysOnly (list.drop (list.findIdx (opts.reaches target)))
  | _ => True

def Pair.Step (opts : IterOptions) (merged : T → List Item) (p : Pair C T S)
    (label : TxnEvent × TxnOutcome) (p' : Pair C T S) : Prop :=
  label.1.Measured opts merged p ∧ label.1.run p = (label.2, p')

-- The engine's part of a write.
def Write.buffer (t : T) : Write → Except Payload (Except TxnOpError Unit) × T
  | .Set key value => OwnedTransaction.put t key value
  | .Delete key => OwnedTransaction.delete t key

-- A write that the engine takes is merged over what the transaction held, and one that it
-- refuses changes nothing.
structure WriteLaws (merged : T → List Item) : Prop where
  taken : ∀ (made : Write) t, (made.buffer t).1 = .ok (.ok ()) →
    merged (made.buffer t).2 = made.merge (merged t)
  refused : ∀ (made : Write) t error, (made.buffer t).1 = .ok (.error error) →
    merged (made.buffer t).2 = merged t

end Model

section Writes

variable {T S : Type} [OwnedTransaction T S] {merged : T → List Item} {t : TxnInner T} {txn : T}

-- How a write ends whose engine part came to `result`.
def buffered (result : Except Payload (Except TxnOpError Unit)) : Option GoError :=
  let reply := Ffi.guard .writable (flatten (result.mapError .panic))
  statusToErr reply.status reply.err

theorem Write.run_usable (h : t.Usable txn) (made : Write) :
    made.run t = if t.readonly then (some (.bare .ErrReadOnly), t)
      else (buffered (made.buffer txn).1, t.holding (some (made.buffer txn).2)) := by
  cases hreadonly : t.readonly with
  | true => cases made <;> simp [Write.run, Txn.Set, Txn.Delete, regolith_txn_set,
      regolith_txn_delete, hreadonly] <;> rfl
  | false =>
      cases made with
      | Set key value =>
          simp [Write.run, Txn.Set, regolith_txn_set, hreadonly, TxnInner.with_txn_usable h,
            Write.buffer, buffered]
      | Delete key =>
          simp [Write.run, Txn.Delete, regolith_txn_delete, hreadonly, TxnInner.with_txn_usable h,
            Write.buffer, buffered]

theorem buffered_refused (error : TxnOpError) :
    ∃ err, buffered (.ok (.error error)) = some err := by
  obtain ⟨err, herr⟩ := Option.isSome_iff_exists.mp (surfaced_isSome (Failure.of_op_error_agrees error).1)
  exact ⟨err, herr⟩

theorem buffered_panic (payload : Payload) :
    ∃ err, buffered (.error payload) = some err ∧ err.sentinel = .ErrPanic := by
  refine ⟨withDetail .ErrPanic _, rfl, ?_⟩
  unfold withDetail
  split <;> rfl

-- A write is a step of the sampler.
theorem Write.step (opts : IterOptions) (writeLaws : WriteLaws merged) (h : t.Usable txn)
    (made : Write) (list : List Item) (position : Nat) :
    ∃ txn', (made.run t).2.Usable txn' ∧ Sampler.Step opts ⟨merged txn, list, position⟩
      (.write made, .wrote (made.run t).1) ⟨merged txn', list, position⟩ := by
  rw [Write.run_usable h]
  cases t.readonly with
  | true => exact ⟨txn, h, .refused _ _ _ _ fun _ => rfl⟩
  | false =>
      refine ⟨(made.buffer txn).2, ⟨h.clean, rfl⟩, ?_⟩
      simp only [Bool.false_eq_true, if_false]
      rcases hresult : (made.buffer txn).1 with payload | error | ⟨⟩
      · obtain ⟨err, herr, hpanic⟩ := buffered_panic payload
        rw [herr]
        exact .refused _ _ _ _ fun hother => absurd hpanic hother
      · obtain ⟨err, herr⟩ := buffered_refused error
        rw [herr, writeLaws.refused made txn error hresult]
        exact .refused _ _ _ _ fun _ => rfl
      · rw [writeLaws.taken made txn hresult]
        exact .buffered _ made

end Writes

section Simulation

variable {C T S : Type} [OwnedSnapshotIter C] [TxnScanStream S] [OwnedTransaction T S]

-- Where an iterator is: before a walk that is still to sample, or on a walk over the list.
inductive Whereabouts (list : List Item) : Nat → Iter (Source C T S) → Prop where
  | before {it : Iter (Source C T S)} (hents : it.ents = []) (hdone : it.done = false)
      (hreset : it.i.reset = true) (hcurrent : it.i.include_current = false)
      (hpending : it.i.pending = none) : Whereabouts list 0 it
  | walking {position : Nat} {it : Iter (Source C T S)} (hposition : position ≠ 0)
      (hreset : it.i.reset = false) (hvalues : ValuesFit it.keysOnly (list.drop (position - 1)))
      (hready : Iter.Ready Source.Cut none (entryAt list position) (list.drop position) it) :
      Whereabouts list position it

structure Pair.Matches (opts : IterOptions) (merged : T → List Item) (p : Pair C T S)
    (s : Sampler) : Prop where
  opened : p.it.Opened opts
  handle : p.it.i.source.handle = some p.t
  contents : ∃ txn, p.t.Usable txn ∧ merged txn = s.contents
  stands : Whereabouts s.list s.position p.it

section Handle

variable {i : RegolithIter (Source C T S)} {it : Iter (Source C T S)} {xs : List Item}

-- What is still to come on a walk that has begun does not depend on the handle.
theorem upcoming_with_handle {fin : Option Raised} (h : Upcoming Source.Cut fin xs i)
    (hreset : i.reset = false) (t : TxnInner T) :
    Upcoming Source.Cut fin xs { i with source := i.source.with_handle t } := by
  have unseen := unseen_with_handle (C := C) (S := S) i.bounds t
  unfold Upcoming at h ⊢
  rcases Bool.eq_false_or_eq_true i.include_current with hcurrent | hcurrent
  · have hlanded (source : Source C T S) :
        ({ i with source := source } : RegolithIter _).advance_in_batch =
          (.ok (EntrySource.in_range i.bounds source),
            { i with source := source, include_current := false }) :=
      advance_in_batch_landed hreset hcurrent
    have hrange : EntrySource.in_range i.bounds (i.source.with_handle t) =
        EntrySource.in_range i.bounds i.source := by
      cases i.source <;> rfl
    rw [hlanded, hrange]
    rw [show i.advance_in_batch = _ from hlanded i.source] at h
    exact unseen.yields h
  · have hstep (source : Source C T S) :
        ({ i with source := source } : RegolithIter _).advance_in_batch =
          ((EntrySource.step i.bounds source).1,
            { i with source := (EntrySource.step i.bounds source).2 }) :=
      advance_in_batch_step hreset hcurrent
    rw [hstep, show EntrySource.step i.bounds (i.source.with_handle t) = _ from unseen.step i.source]
    rw [show i.advance_in_batch = _ from hstep i.source] at h
    exact unseen.yields h

theorem between_with_handle {fin : Option Raised} (h : Between Source.Cut fin xs i)
    (t : TxnInner T) : Between Source.Cut fin xs { i with source := i.source.with_handle t } := by
  have unseen := unseen_with_handle (C := C) (S := S) i.bounds t
  cases h with
  | more hpending hreset hcurrent hyields =>
      have hstep : EntrySource.step i.bounds (i.source.with_handle t) = _ := unseen.step i.source
      refine .more hpending hreset hcurrent ?_
      simp only [hstep]
      exact unseen.yields hyields
  | held failure hpending hreset hcurrent hnil hfin hcut =>
      exact .held failure hpending hreset hcurrent hnil hfin (unseen.cut _ hcut)

theorem Iter.Ready.with_handle {fin : Option Failure} {current : Option Item}
    (h : Iter.Ready Source.Cut fin current xs it) (hreset : it.i.reset = false) (t : TxnInner T) :
    Iter.Ready Source.Cut fin current xs (it.with_handle t) := by
  cases h with
  | awaiting hents hdone hawaits hfit =>
      refine .awaiting hents hdone ?_ hfit
      cases hawaits with
      | coming hpending hcoming =>
          exact .coming hpending (upcoming_with_handle hcoming hreset t)
      | held failure hpending hnil hfin => exact .held failure hpending hnil hfin
  | within hloaded hx hfit =>
      obtain ⟨⟨hvalues, hcount, hbetween⟩, hents, hbuf, hshort, hdone⟩ := hloaded
      have hloaded' : Iter.Loaded Source.Cut fin _ _ (it.with_handle t) :=
        ⟨⟨hvalues, hcount, between_with_handle hbetween t⟩, hents, hbuf, hshort, hdone⟩
      exact .within hloaded' hx hfit
  | ended hents hdone hfin => exact .ended hents hdone hfin

theorem Whereabouts.with_handle {list : List Item} {position : Nat}
    (h : Whereabouts list position it) (t : TxnInner T) :
    Whereabouts list position (it.with_handle t) := by
  cases h with
  | before hents hdone hreset hcurrent hpending =>
      exact .before hents hdone hreset hcurrent hpending
  | walking hposition hreset hvalues hready =>
      exact .walking hposition hreset hvalues (hready.with_handle hreset t)

end Handle

section Calls

variable {merged : T → List Item} {opts : IterOptions} {p : Pair C T S} {s : Sampler}

theorem Pair.Matches.source (h : p.Matches opts merged s) :
    Source.OverTxn merged False s.contents p.it.i.source := by
  obtain ⟨txn, husable, hmerged⟩ := h.contents
  have hhandle := h.handle
  cases hsource : p.it.i.source with
  | Snapshot cursor => simp [hsource, Source.handle] at hhandle
  | Txn t stream current =>
      obtain rfl : t = p.t := by simpa [hsource, Source.handle] using hhandle
      refine ⟨fun txn' htxn' => ?_, fun _ => ⟨txn, husable⟩⟩
      obtain rfl : txn = txn' := Option.some.inj (husable.open_.symm.trans htxn')
      exact hmerged

-- On a walk over what has just been sampled.
theorem matches_of_follows {list contents : List Item} {position : Nat}
    {it : Iter (Source C T S)} (t : TxnInner T)
    (h : Iter.Follows opts list (Source.OverTxn merged False contents) Source.Cut position it)
    (hvalues : ValuesFit opts.KeysOnly (list.drop (position - 1))) (hposition : position ≠ 0)
    (hreset : it.i.reset = false) :
    Pair.Matches opts merged ⟨it.i.source.handle.getD t, it⟩ ⟨contents, list, position⟩ := by
  have hopened : it.Opened opts := ⟨h.live.not_closed, h.keysOnly, h.bounds⟩
  have hsource := h.source
  cases hit : it.i.source with
  | Snapshot cursor =>
      rw [hit] at hsource
      exact hsource.elim
  | Txn txn stream current =>
      rw [hit] at hsource
      obtain ⟨txn', husable⟩ := hsource.usable not_false
      exact ⟨hopened, by simp [hit, Source.handle],
        ⟨txn', husable, hsource.view txn' husable.open_⟩,
        .walking hposition hreset (h.keysOnly ▸ hvalues) h.ready⟩

theorem Pair.Matches.holds (h : p.Matches opts merged s) : holds merged p.t = s.contents := by
  obtain ⟨txn, husable, hmerged⟩ := h.contents
  simp [Go.holds, husable.open_, hmerged]

theorem Whereabouts.reads {list : List Item} {position : Nat} {it : Iter (Source C T S)}
    (h : Whereabouts list position it) : it.Reads (entryAt list position) := by
  cases h with
  | before hents => exact ⟨Iter.Key_off (by simp [hents]), by simp [Iter.Value, hents, entryAt]⟩
  | walking hposition hreset hvalues hready =>
      refine hready.reads fun x hx hkeysOnly => hvalues hkeysOnly x ?_
      obtain ⟨index, rfl⟩ := Nat.exists_eq_succ_of_ne_zero hposition
      exact List.mem_of_getElem? (show (list.drop index)[0]? = some x by simpa [entryAt] using hx)

-- A walk of the boundary that begins or goes on leaves no reset behind.
theorem next_batch_begun {i : RegolithIter (Source C T S)} (hpending : i.pending = none) :
    (regolith_iter_next_batch i batchEntries .writable .writable .writable .writable).2.reset =
      false := by
  have hfirst := advance_in_batch_fields i.invalidate_batch
  exact ((batch_keeps_handle _).next_batch_after hpending (by decide) .writable
    ⟨by rw [hfirst], rfl⟩).1

-- What a call of the pair comes to, against the sampler.
def Agrees (opts : IterOptions) (merged : T → List Item) (p : Pair C T S) (s : Sampler)
    (made : CursorCall) : Prop :=
  (made.run p.it).1 = (s.call opts made).1 ∧
    Pair.Matches opts merged
      ⟨(made.run p.it).2.i.source.handle.getD p.t, (made.run p.it).2⟩ (s.call opts made).2

theorem Pair.Matches.read (h : p.Matches opts merged s) :
    Agrees opts merged p s .Key ∧ Agrees opts merged p s .Value ∧ Agrees opts merged p s .Reset := by
  obtain ⟨hkey, hvalue⟩ := h.stands.reads
  have hhandle : p.it.i.source.handle.getD p.t = p.t := by rw [h.handle]; rfl
  have hsame : Pair.Matches opts merged ⟨p.it.i.source.handle.getD p.t, p.it⟩ s := by
    rw [hhandle]
    exact h
  refine ⟨⟨congrArg Outcome.key hkey, hsame⟩, ⟨congrArg Outcome.value ?_, hsame⟩, rfl, ?_⟩
  · rw [hvalue, h.opened.keysOnly]
    rfl
  · have hreset : Pair.Matches opts merged ⟨p.t, p.it.Reset⟩ ⟨s.contents, s.list, 0⟩ :=
      ⟨⟨h.opened.not_closed, h.opened.keysOnly, h.opened.bounds⟩, h.handle, h.contents,
        .before rfl rfl rfl rfl rfl⟩
    change Pair.Matches opts merged ⟨p.it.i.source.handle.getD p.t, p.it.Reset⟩ _
    rw [hhandle]
    exact hreset

section Moves

variable (txnLaws : TransactionLaws merged False)

include txnLaws

theorem Pair.Matches.walks (h : p.Matches opts merged s) :
    EntrySource.Walks opts.bounds (opts.range s.contents) False
        (Source.OverTxn (C := C) (S := S) merged False s.contents) Source.Cut ∧
      (opts.range s.contents).Pairwise opts.bounds.before := by
  obtain ⟨txn, -, hmerged⟩ := h.contents
  rw [range_eq_listing]
  exact ⟨Source.txn_walks txnLaws opts.bounds s.contents,
    opts.bounds.listing_sorted (hmerged ▸ txnLaws.ascending txn)⟩

theorem Pair.Matches.next (h : p.Matches opts merged s)
    (hmeasured : TxnEvent.Measured opts merged p (.call .Next)) : Agrees opts merged p s .Next := by
  have hlive := h.opened.live
  obtain ⟨hwalks, -⟩ := h.walks txnLaws
  obtain ⟨contents, list, position⟩ := s
  cases h.stands with
  | before hents hdone hreset hcurrent hpending =>
      -- The walk begins with this call, over what the transaction holds now.
      have hfitting : Fitting opts.KeysOnly (opts.range contents) := by
        simpa [h.holds] using hmeasured hreset
      have hfollows := Iter.follows_start hwalks hlive h.opened.keysOnly h.opened.bounds h.source
        hfitting.1 hents hdone hreset hcurrent hpending
      obtain ⟨hresult, hafter⟩ := hfollows.next hwalks
      have hbegun : p.it.Next.2.i.reset = false := by
        rw [Iter.Next_refill hlive (by simp [hents]) hdone, Iter.refill_i]
        exact next_batch_begun hpending
      exact ⟨congrArg Outcome.moved hresult,
        matches_of_follows p.t hafter (hfitting.2.drop _) (by omega) hbegun⟩
  | walking hposition hreset hvalues hready =>
      -- The walk goes on, and leaves the transaction alone.
      have hcall : Sampler.call opts ⟨contents, list, position⟩ .Next =
          (.moved (.ok ((entryAt list (min (position + 1) (list.length + 1))).isSome, none)),
            ⟨contents, list, min (position + 1) (list.length + 1)⟩) := by
        simp [Sampler.call, Sampler.samples, hposition, CursorCall.plain]
      obtain ⟨hresult, hnext⟩ := hready.next hlive
      obtain ⟨hbegun, hhandle⟩ :=
        Iter.Next_keeps (batch_keeps_handle (some p.t)) ⟨hreset, h.handle⟩
      obtain ⟨hclosed, hkeysOnly⟩ := Iter.Next_frame p.it
      have hopened : p.it.Next.2.Opened opts :=
        ⟨hclosed.trans h.opened.not_closed, hkeysOnly.trans h.opened.keysOnly,
          Iter.Next_keeps (keepsBounds opts.bounds) h.opened.bounds⟩
      have hafter : p.it.Next.2.i.source.handle.getD p.t = p.t := by rw [hhandle]; rfl
      rw [Agrees, hcall]
      refine ⟨congrArg Outcome.moved hresult, ?_⟩
      change Pair.Matches opts merged ⟨p.it.Next.2.i.source.handle.getD p.t, p.it.Next.2⟩ _
      rw [hafter]
      have hposition' : min (position + 1) (list.length + 1) ≠ 0 := by omega
      have hlater : ValuesFit p.it.Next.2.keysOnly
          (list.drop (min (position + 1) (list.length + 1) - 1)) := by
        rw [hkeysOnly]
        rcases le_total position list.length with hwithin | hpast
        · have hone : min (position + 1) (list.length + 1) - 1 = position - 1 + 1 := by
            have hbegun : position ≠ 0 := hposition
            omega
          rw [hone, ← List.drop_drop]
          exact hvalues.drop 1
        · rw [show min (position + 1) (list.length + 1) - 1 = list.length by omega, List.drop_length]
          exact fun _ => by simp
      exact ⟨hopened, hhandle, h.contents, .walking hposition' hbegun hlater hnext⟩

theorem Pair.Matches.seek (h : p.Matches opts merged s) (target : Bytes)
    (hmeasured : TxnEvent.Measured opts merged p (.call (.Seek target))) :
    Agrees opts merged p s (.Seek target) := by
  have hlive := h.opened.live
  obtain ⟨hwalks, hsorted⟩ := h.walks txnLaws
  have hfitting : Fitting opts.KeysOnly ((opts.range s.contents).drop
      ((opts.range s.contents).findIdx (opts.reaches target))) := by
    simpa [TxnEvent.Measured, h.holds] using hmeasured
  obtain ⟨hresult, hafter⟩ := Iter.follows_seek hwalks hsorted hlive h.opened.keysOnly
    h.opened.bounds h.source target hfitting.1
  have hbegun : (p.it.Seek target).2.i.reset = false := by
    have hsought : (p.it.sought target).i.reset = false := by
      simp [Iter.sought, regolith_iter_seek, RegolithIter.seek_eq]
    rcases p.it.Seek_cases target with hclosed | ⟨err, herr⟩ | hend | hrefill
    · simp [hclosed] at hresult
    · rw [herr]
      exact hsought
    · rw [hend]
      exact hsought
    · rw [hrefill]
      exact (Iter.refill_keeps (batch_keeps_handle _) ⟨hsought, rfl⟩).1
  exact ⟨congrArg Outcome.moved hresult,
    matches_of_follows p.t hafter hfitting.2 (Nat.succ_ne_zero _) hbegun⟩

-- One step of the pair is one of the sampler.
theorem Pair.Matches.step (writeLaws : WriteLaws merged) (h : p.Matches opts merged s)
    {label : TxnEvent × TxnOutcome} {p' : Pair C T S} (hstep : p.Step opts merged label p') :
    ∃ s', Sampler.Step opts s label s' ∧ p'.Matches opts merged s' := by
  obtain ⟨event, outcome⟩ := label
  obtain ⟨hmeasured, hrun⟩ := hstep
  cases event with
  | write made =>
      obtain ⟨rfl, rfl⟩ := Prod.mk.inj ((TxnEvent.run_write p made).symm.trans hrun)
      obtain ⟨txn, husable, hmerged⟩ := h.contents
      obtain ⟨txn', husable', hwrite⟩ :=
        made.step opts writeLaws husable s.list s.position
      rw [hmerged] at hwrite
      have hhandle : (p.it.with_handle (made.run p.t).2).i.source.handle = some (made.run p.t).2 := by
        have hsource := h.handle
        cases hit : p.it.i.source with
        | Snapshot cursor => simp [hit, Source.handle] at hsource
        | Txn t stream current => simp [Iter.with_handle, hit, Source.with_handle, Source.handle]
      exact ⟨_, hwrite, ⟨h.opened.not_closed, h.opened.keysOnly, h.opened.bounds⟩, hhandle,
        ⟨txn', husable', rfl⟩, h.stands.with_handle _⟩
  | call made =>
      obtain ⟨rfl, rfl⟩ := Prod.mk.inj ((TxnEvent.run_call p made).symm.trans hrun)
      have hagrees : Agrees opts merged p s made := by
        cases made with
        | Next => exact h.next txnLaws hmeasured
        | Seek target => exact h.seek txnLaws target hmeasured
        | Reset => exact h.read.2.2
        | Key => exact h.read.1
        | Value => exact h.read.2.1
      obtain ⟨hout, hafter⟩ := hagrees
      refine ⟨(s.call opts made).2, ?_, hafter⟩
      have hcall : Sampler.Step opts s _ _ := .call s made
      rw [← hout] at hcall
      exact hcall

end Moves

omit [OwnedSnapshotIter C] [TxnScanStream S] [OwnedTransaction T S] in
theorem newIter_shares {closed resolved : Bool} {t t' : TxnInner T} {it : Iter (Source C T S)}
    (h : Txn.NewIter C S closed resolved t opts = (.ok it, t')) :
    ∃ txn, t.Usable txn ∧ t' = t ∧
      it = .opened (.from_source (.Txn t none none) opts.bounds) opts := by
  unfold Txn.NewIter at h
  split_ifs at h
  · simp at h
  · simp at h
  · by_cases hreach : ∃ txn, t.Usable txn
    · obtain ⟨txn, husable⟩ := hreach
      have hopened : regolith_txn_iter C S t (some (newIterOptions opts)) .writable .writable =
          (Ffi.guard .writable (.ok (.from_source (.Txn t none none) opts.bounds)), t) := by
        simp only [regolith_txn_iter, reduceCtorEq, if_false, RegolithIter.over_txn,
          TxnInner.with_txn_usable husable, TxnInner.holding_self husable.open_]
        rfl
      simp only [hopened] at h
      obtain ⟨hit, rfl⟩ := Prod.mk.inj h
      exact ⟨txn, husable, rfl, (Except.ok.inj hit).symm⟩
    · obtain ⟨failure, hfailure⟩ := TxnInner.with_txn_unreached (not_exists.mp hreach)
        fun t => (Except.ok (), t)
      simp only [regolith_txn_iter, reduceCtorEq, if_false, RegolithIter.over_txn, hfailure, fail] at h
      obtain ⟨i, hout, -⟩ := newIter_ok (congrArg Prod.fst h)
      simp [Ffi.guard] at hout

end Calls

end Simulation

-- Against a sampler with the same writes and calls, every outcome is the sampler's, in every
-- run whose sampled ranges have frames and values below 2 GiB.
theorem txn_iterator_samples {C T S : Type} [OwnedSnapshotIter C] [TxnScanStream S]
    [OwnedTransaction T S] {merged : T → List Item} (txnLaws : TransactionLaws merged False)
    (writeLaws : WriteLaws merged) {closed resolved : Bool} {t t' : TxnInner T}
    {opts : IterOptions} {it : Iter (Source C T S)}
    (hnew : Txn.NewIter C S closed resolved t opts = (.ok it, t'))
    {trace : List (TxnEvent × TxnOutcome)} {p : Pair C T S}
    (run : Run (Pair.Step opts merged) ⟨t', it⟩ trace p) :
    ∃ s, Run (Sampler.Step opts) ⟨holds merged t, [], 0⟩ trace s ∧
      s.contents = holds merged p.t := by
  obtain ⟨txn, husable, rfl, rfl⟩ := newIter_shares hnew
  have hfirst : Pair.Matches opts merged
      (⟨t', .opened (.from_source (.Txn t' none none) opts.bounds) opts⟩ : Pair C T S)
      ⟨holds merged t', [], 0⟩ := by
    have hheld : merged txn = holds merged t' := by simp [holds, husable.open_]
    exact ⟨⟨rfl, rfl, rfl⟩, rfl, ⟨txn, husable, hheld⟩, .before rfl rfl rfl rfl rfl⟩
  obtain ⟨s, hrun, hmatches⟩ :=
    run.simulates hfirst fun h hstep => h.step txnLaws writeLaws hstep
  exact ⟨s, hrun, hmatches.holds.symm⟩

section Example

theorem ListTxn.writeLaws {bad : Bytes → Bool} :
    WriteLaws fun t : ListTxn bad => t.contents.entries where
  taken made t h := by
    cases made with
    | Set key value =>
        cases hbad : bad key with
        | true => simp [Write.buffer, OwnedTransaction.put, hbad] at h
        | false => simp [Write.buffer, OwnedTransaction.put, hbad, Contents.insert, Write.merge]
    | Delete key =>
        cases hbad : bad key with
        | true => simp [Write.buffer, OwnedTransaction.delete, hbad] at h
        | false => simp [Write.buffer, OwnedTransaction.delete, hbad, Contents.erase, Write.merge]
  refused made t error h := by
    cases made with
    | Set key value => cases hbad : bad key <;> simp [Write.buffer, OwnedTransaction.put, hbad] at h
    | Delete key => cases hbad : bad key <;> simp [Write.buffer, OwnedTransaction.delete, hbad] at h

theorem measurable_of_frame {keysOnly : Bool} {list : List Item}
    (hframe : (key_frame list).length < 2 ^ 31) (hvalues : ValuesFit keysOnly list) :
    Measurable keysOnly list := by
  refine ⟨fun index => lt_of_le_of_lt ?_ hframe, hvalues⟩
  have hfront := gathered_prefix keysOnly batchEntries 0 (list.drop index)
  have hsub : (gathered keysOnly batchEntries 0 (list.drop index)).Sublist list :=
    hfront.sublist.trans (List.drop_sublist _ _)
  exact (hsub.flatMap _).length_le

-- A transaction that holds one entry, and an iterator of it.
def onePair : Pair (ListCursor noBad) (ListTxn noBad) (ListStream noBad) :=
  ⟨.new ⟨.ofPairs [([1], [10])]⟩ false, overList noBad (.ofPairs [([1], [10])]) wholeRange⟩

end Example

-- A write between the making of the iterator and the first `Next`.
theorem txn_iterator_samples_write :
    ∃ s, Run (Sampler.Step wholeRange) ⟨[⟨[1], [10]⟩], [], 0⟩
      [(.write (.Set [2] [20]), .wrote none), (.call .Next, .called (.moved (.ok (true, none))))] s ∧
      s.contents = [⟨[1], [10]⟩, ⟨[2], [20]⟩] := by
  have hmeasured : Measurable wholeRange.KeysOnly [⟨[1], [10]⟩, ⟨[2], [20]⟩] := by
    refine measurable_of_frame (by decide) fun _ => ?_
    decide
  have hnew := newIter_overList noBad (.ofPairs [([1], [10])]) wholeRange
  have hnext : ((TxnEvent.write (.Set [2] [20])).run onePair).2.it.Next.1 = .ok (true, none) := by
    decide +kernel
  have hset : Pair.Step wholeRange (·.contents.entries) onePair
      (.write (.Set [2] [20]), .wrote none) ((TxnEvent.write (.Set [2] [20])).run onePair).2 :=
    ⟨trivial, rfl⟩
  have hfirst : Pair.Step wholeRange (·.contents.entries)
      ((TxnEvent.write (.Set [2] [20])).run onePair).2
      (.call .Next, .called (.moved (.ok (true, none)))) _ :=
    ⟨fun _ => ⟨hmeasured.batches 0, hmeasured.values⟩,
      Prod.ext (congrArg (TxnOutcome.called <| .moved ·) hnext) rfl⟩
  exact txn_iterator_samples ListTxn.soundLaws ListTxn.writeLaws hnew
    (.snoc (.snoc .nil hset) hfirst)

-- 256 keys of the greatest length that the engine accepts by default: the sampler moves onto
-- the first of them, where `Next` panics.
theorem sampled_keys_panic :
    let it := overList noBad (longKeys 8388607) keysOfAll
    let t : TxnInner (ListTxn noBad) := .new ⟨longKeys 8388607⟩ false
    Txn.NewIter _ _ false false t keysOfAll = (.ok it, t) ∧
      it.Next.1 = .error (.panic "gobytes: length out of range") ∧
      ¬∃ s, Run (Sampler.Step keysOfAll) ⟨(longKeys 8388607).entries, [], 0⟩
        [(.call .Next, .called (.moved it.Next.1))] s := by
  obtain ⟨tail, htail⟩ : ∃ tail : Nat, tail = 8388607 := ⟨_, rfl⟩
  rw [← htail]
  intro it t
  have hwalks := Source.txn_walks (C := ListCursor noBad) ListTxn.soundLaws keysOfAll.bounds
    (longKeys tail).entries
  rw [← range_eq_listing, range_keysOfAll] at hwalks
  have hplaced : Placed keysOfAll.bounds (longKeys tail).entries
      (Source.OverTxn (·.contents.entries) False (longKeys tail).entries) Source.Cut .start it.i :=
    placed_over ⟨by rintro _ ⟨⟩; rfl, fun _ => ⟨_, rfl, rfl⟩⟩
  have hawaits : Iter.Awaits Source.Cut none (longKeys tail).entries it.i :=
    .coming rfl (hplaced.upcoming hwalks)
  have hnext := Iter.Next_longKeys it ⟨rfl, rfl⟩ rfl rfl rfl hawaits (by omega) (by omega)
  refine ⟨newIter_overList noBad (longKeys tail) keysOfAll, hnext, ?_⟩
  rw [hnext]
  rintro ⟨s, run⟩
  rw [← List.nil_append [_]] at run
  obtain ⟨s', -, hstep⟩ := run.of_snoc
  have hout := hstep.outcome
  simp [Sampler.call, CursorCall.plain] at hout

end Regolith.Go
