import Regolith.Ffi.Iter.Batches
import Regolith.Go.Iter.Faults
import Regolith.Library.Transition

-- The three ways to read the value at the current entry.
namespace Regolith.Go

open Ffi Ffi.RegolithIter

namespace Iter

section Readers

variable {σ : Type}

-- The bytes that the boundary retains for the current entry.
def retained (it : Iter σ) : Option Bytes :=
  if it.keysOnly ∨ it.ents.length ≤ it.pos then none else it.i.batch_values[it.pos]?

-- What a reader makes of them: no bytes read as nil.
def readAs (value : Option Bytes) : Option Bytes :=
  value.bind fun bytes => if bytes = [] then none else some bytes

-- All three read `value`, which is nil when there is nothing to read.
structure ReadersAgree (it : Iter σ) (value : Option Bytes) : Prop where
  nil : value = none ↔ it.ents.length ≤ it.pos ∨ it.keysOnly = true ∨ it.retained = some []
  Value : it.Value = .ok (value, none)
  BorrowValue : ∀ {ρ : Type} (fn : Option Bytes → ρ → Except Crash (Option GoError) × ρ) (s : ρ),
    it.BorrowValue fn s = fn value s
  AppendValue : ∀ dst : Bytes, it.AppendValue dst = .ok (dst ++ value.getD [], none)

-- No more entries in hand than the boundary counts, or retains values for.
structure Coherent (it : Iter σ) : Prop where
  count : it.ents.length ≤ it.i.batch_count
  values : it.keysOnly = false → it.ents.length ≤ it.i.batch_values.length

variable {it : Iter σ}

theorem Coherent.of_nil (h : it.ents = []) : it.Coherent := by
  constructor
  · simp [h]
  · simp [h]

theorem retained_some (hcoherent : it.Coherent) (hvalues : it.keysOnly = false)
    (hpos : it.pos < it.ents.length) : ∃ value, it.i.batch_values[it.pos]? = some value ∧
      it.retained = some value ∧
      regolith_iter_batch_value it.i it.pos .writable .writable .writable =
        Ffi.guard .writable (.ok (some value)) := by
  have hcount := hcoherent.count
  have hlength := hcoherent.values hvalues
  have hvalue := List.getElem?_eq_getElem (show it.pos < it.i.batch_values.length by omega)
  refine ⟨_, hvalue, ?_, ?_⟩
  · simp [retained, hvalues, hpos.not_ge, hvalue]
  · simp [regolith_iter_batch_value, hvalue, show ¬it.i.batch_count ≤ it.pos by omega]

theorem borrowValue_eq (hcoherent : it.Coherent) {ρ : Type}
    (fn : Option Bytes → ρ → Except Crash (Option GoError) × ρ) (s : ρ) :
    it.borrowValue fn s = fn (readAs it.retained) s := by
  by_cases hoff : it.keysOnly ∨ it.ents.length ≤ it.pos
  · simp [borrowValue, retained, hoff, readAs]
  · have hon := not_or.mp hoff
    obtain ⟨value, -, hretained, hreply⟩ :=
      retained_some hcoherent (by simpa using hon.1) (not_le.mp hon.2)
    simp only [borrowValue, hoff, if_false, hreply, hretained, guard_ok_status, statusToErr_ok,
      guard_ok_out, Option.getD_some]
    by_cases hempty : value = []
    · simp [readAs, hempty]
    · simp [readAs, hempty]

theorem Value_retained (hcoherent : it.Coherent) {value : Bytes} (h : it.retained = some value) :
    it.Value = if value.length = 0 then .ok (none, none)
      else (GoBytes value (.ofNat value.length)).map (some ·, none) := by
  have hon : ¬(it.keysOnly = true ∨ it.ents.length ≤ it.pos) := by
    intro hoff
    simp [retained, hoff] at h
  obtain ⟨hvalues, hpos⟩ := not_or.mp hon
  obtain ⟨_, -, hretained, hreply⟩ :=
    retained_some hcoherent (by simpa using hvalues) (not_le.mp hpos)
  obtain rfl := Option.some.inj (hretained.symm.trans h)
  simp [Iter.Value, hon, hreply]

theorem Value_eq_iff (hcoherent : it.Coherent) :
    it.Value = .ok (readAs it.retained, none) ↔
      ∀ value ∈ it.retained, value.length < 2 ^ 31 := by
  by_cases hoff : it.keysOnly ∨ it.ents.length ≤ it.pos
  · simp [Iter.Value, retained, hoff, readAs]
  · have hon := not_or.mp hoff
    obtain ⟨value, -, hretained, -⟩ :=
      retained_some hcoherent (by simpa using hon.1) (not_le.mp hon.2)
    rw [Value_retained hcoherent hretained, hretained]
    simp only [Option.mem_def, Option.some.injEq, forall_eq']
    rw [← GoBytes_eq_iff]
    by_cases hempty : value = []
    · simp [readAs, hempty, GoBytes]
    · have hlength : value.length ≠ 0 := by simpa using hempty
      simp only [hlength, if_false, readAs, Option.bind_some, hempty]
      cases GoBytes value (.ofNat value.length) <;> simp [Except.map]

theorem readAs_nil_iff (hcoherent : it.Coherent) :
    readAs it.retained = none ↔
      it.ents.length ≤ it.pos ∨ it.keysOnly = true ∨ it.retained = some [] := by
  by_cases hoff : it.keysOnly ∨ it.ents.length ≤ it.pos
  · simp only [readAs, retained, hoff, if_true, Option.bind_none, true_iff]
    tauto
  · have hon := not_or.mp hoff
    obtain ⟨value, -, hretained, -⟩ :=
      retained_some hcoherent (by simpa using hon.1) (not_le.mp hon.2)
    rw [hretained]
    by_cases hempty : value = []
    · simp [readAs, hempty]
    · simp [readAs, hempty, hon]

-- The readers agree unless the length of the value is narrowed for one of them.
theorem readersAgree_iff (hcoherent : it.Coherent) :
    (∃ value, it.ReadersAgree value) ↔ ∀ value ∈ it.retained, value.length < 2 ^ 31 := by
  constructor
  · rintro ⟨value, hagree⟩
    -- A callback that keeps what it is handed.
    have hborrow := hagree.BorrowValue (fun lent _ => (.ok none, lent)) none
    have hvalue : readAs it.retained = value := by
      rw [BorrowValue, borrowValue_eq hcoherent] at hborrow
      exact congrArg Prod.snd hborrow
    exact (Value_eq_iff hcoherent).mp (hvalue ▸ hagree.Value)
  · intro hshort
    refine ⟨readAs it.retained, readAs_nil_iff hcoherent, (Value_eq_iff hcoherent).mpr hshort,
      fun fn s => borrowValue_eq hcoherent fn s, ?_⟩
    intro dst
    simp only [Iter.AppendValue, borrowValue_eq hcoherent]

end Readers

section Refill

variable {σ : Type} [EntrySource σ]

-- What is taken of a buffer is a front of it.
theorem takeBuf_front {bytes frame : Bytes} {status : Status} {detail : Option String}
    (h : takeBuf bytes status detail = .ok (frame, none)) : frame <+: bytes := by
  rw [takeBuf] at h
  split at h
  · simp at h
  · split at h
    · obtain rfl : [] = frame := by simpa using h
      exact List.nil_prefix
    · cases hbytes : GoBytes bytes (.ofNat bytes.length) with
      | error crash => simp [hbytes, Except.map] at h
      | ok buf =>
          obtain rfl : buf = frame := by simpa [hbytes, Except.map] using h
          exact (GoBytes_ok hbytes).1

-- How a refill that comes back may end: with nothing in hand, or with what it has parsed
-- out of a batch, or out of a front of it.
theorem refill_returned (it : Iter σ) {answer : Bool × Option GoError}
    (h : it.refill.1 = .ok answer) :
    it.refill.2.i = (regolith_iter_next_batch it.i batchEntries .writable .writable .writable
        .writable).2 ∧ it.refill.2.keysOnly = it.keysOnly ∧
      (it.refill.2.ents = [] ∨ ∃ batch buf, (regolith_iter_next_batch it.i batchEntries .writable
          .writable .writable .writable).1.out = some batch ∧ buf <+: batch.frame ∧
        parse buf buf.length 0 [] = .ok it.refill.2.ents) := by
  simp only [refill] at h ⊢
  generalize regolith_iter_next_batch it.i batchEntries .writable .writable .writable .writable =
    result at *
  obtain ⟨reply, i⟩ := result
  rcases htake : takeBuf (reply.out.getD ⟨[], 0⟩).frame reply.status reply.err with
    crash | ⟨frame, _ | err⟩
  · simp [htake] at h
  · simp only [htake] at h ⊢
    by_cases hcount : (reply.out.getD ⟨[], 0⟩).count = 0
    · simp [hcount]
    · simp only [hcount, if_false] at h ⊢
      cases hparse : parse frame frame.length 0 [] with
      | error crash => simp [hparse] at h
      | ok ents =>
          cases hout : reply.out with
          | none => simp [hout] at hcount
          | some batch =>
              rw [hout] at htake
              exact ⟨rfl, rfl, .inr ⟨batch, frame, rfl, takeBuf_front htake, hparse⟩⟩
  · simp

-- What a seek goes on with once the boundary has moved.
def sought (it : Iter σ) (key : Bytes) : Iter σ :=
  { it.invalidate with i := (regolith_iter_seek it.i (bytePtr key) .writable .writable).2 }

theorem Seek_cases (it : Iter σ) (key : Bytes) :
    it.Seek key = (.ok (false, some (.bare .ErrClosed)), it) ∨
      (∃ err, it.Seek key = (.ok (false, some err), it.sought key)) ∨
      it.Seek key = (.ok (false, none), { it.sought key with done := true }) ∨
      it.Seek key = (it.sought key).refill := by
  unfold Seek
  by_cases hclosed : it.db_closed = true
  · simp [hclosed]
  · simp only [hclosed, Bool.false_eq_true, if_false]
    right
    split
    · exact .inl ⟨_, rfl⟩
    · split
      · exact .inr (.inl rfl)
      · exact .inr (.inr rfl)

end Refill

section Runs

variable {C T S : Type} [OwnedSnapshotIter C] [TxnScanStream S] [OwnedTransaction T S]

-- An iterator as either `NewIter` returns it.
inductive Fresh (opts : IterOptions) (it : Iter (Source C T S)) : Prop where
  | snapshot {St : Type} [SnapshotStore St C] (db : DB St) (h : DB.NewIter T S db opts = .ok it)
  | transaction (closed resolved : Bool) (txn : TxnInner T)
      (h : (Txn.NewIter C S closed resolved txn opts).1 = .ok it)

-- What happens to an iterator: calls on it, the end of its database, and changes to the
-- transaction that it is over.
inductive Event (T : Type) where
  | call (made : CursorCall)
  | close
  | handle (txn : TxnInner T)

def Event.apply (it : Iter (Source C T S)) : Event T → Iter (Source C T S)
  | .call made => (made.run it).2
  | .close => { it with db_closed := true }
  | .handle txn => { it with i := { it.i with source := it.i.source.with_handle txn } }

-- Whatever a walk that begins now may come across has a key that an `int32` can measure.
def KeysBelow (entries : C → List Item) (merged : T → List Item) (it : Iter (Source C T S)) :
    Prop :=
  ∀ x ∈ it.i.bounds.listing (it.i.source.view entries merged), x.key.length < 2 ^ 31

-- A walk is begun over such keys, and a move comes back.
def Event.Meets (entries : C → List Item) (merged : T → List Item) (it : Iter (Source C T S)) :
    Event T → Prop
  | .call .Next =>
    (it.i.reset = true → it.KeysBelow entries merged) ∧ ∃ answer, it.Next.1 = .ok answer
  | .call (.Seek key) => it.KeysBelow entries merged ∧ ∃ answer, (it.Seek key).1 = .ok answer
  | _ => True

def Moves (entries : C → List Item) (merged : T → List Item) (it : Iter (Source C T S))
    (event : Event T) (it' : Iter (Source C T S)) : Prop :=
  event.Meets entries merged it ∧ it' = event.apply it

-- What holds throughout a run.
structure Tracks (b : Bounds) (it : Iter (Source C T S)) : Prop where
  coherent : it.Coherent
  keysOnly : it.keysOnly = b.keys_only
  walk : ∃ view : List Item, (∀ x ∈ b.listing view, x.key.length < 2 ^ 31) ∧
    Sampled.Kept b (⟨it.i, view⟩ : Sampled C T S)

variable {entries : C → List Item} {merged : T → List Item} {b : Bounds}
  {it : Iter (Source C T S)} (cursorLaws : CursorLaws entries True)
  (txnLaws : TransactionLaws merged True)

include cursorLaws txnLaws

theorem refill_tracks (hkeysOnly : it.keysOnly = b.keys_only) {view : List Item}
    (hview : ∀ x ∈ b.listing view, x.key.length < 2 ^ 31)
    (hbegins : it.i.reset = true → it.KeysBelow entries merged)
    (hkept : Sampled.Kept b (⟨it.i, view⟩ : Sampled C T S)) {answer : Bool × Option GoError}
    (h : it.refill.1 = .ok answer) : it.refill.2.Tracks b := by
  obtain ⟨hi, hkeys, hents⟩ := refill_returned it h
  have hafter := hkept.next_batch cursorLaws txnLaws batchEntries .writable .writable .writable
    .writable
  have hbelow : ∀ x ∈ b.listing (IterEvent.sample entries merged (⟨it.i, view⟩ : Sampled C T S)
      (.call (.next_batch batchEntries .writable .writable .writable .writable))).view,
      x.key.length < 2 ^ 31 := by
    cases hreset : it.i.reset with
    | true =>
        have hbounds : it.i.bounds = b := hkept.bounds
        simp only [IterEvent.sample]
        split
        · exact hbounds ▸ hbegins hreset
        · exact hview
    | false => simpa [IterEvent.sample, IterCall.samples, hreset] using hview
  have hcount := next_batch_count it.i (show batchEntries ≠ 0 by decide) .writable
  refine ⟨?_, hkeys.trans hkeysOnly, _, hbelow, ?_⟩
  · cases hout : (regolith_iter_next_batch it.i batchEntries .writable .writable .writable
      .writable).1.out with
    | none =>
        have hnil : it.refill.2.ents = [] := by simpa [hout] using hents
        rw [hout] at hcount
        exact .of_nil hnil
    | some batch =>
        obtain ⟨taken, hwell, htaken⟩ := hkept.handed cursorLaws txnLaws (by decide) hout
        have hframe : batch.frame = key_frame taken := by
          rw [key_frame_eq_pack]
          exact ((record_code.scan_none_iff 0 _ _).mp hwell.frame).1
        have htook : ∀ x ∈ taken, x.key.length < 2 ^ 31 :=
          fun x hx => hbelow x (hwell.entries.subset hx)
        have hbatch : it.refill.2.i.batch_count = taken.length := by
          rw [hi]
          exact htaken
        have hparsed : it.refill.2.ents.length ≤ taken.length := by
          rcases hents with hnil | ⟨batch', buf, hout', hbuf, hparse⟩
          · simp [hnil]
          · obtain rfl : batch = batch' := Option.some.inj (hout.symm.trans hout')
            rw [hframe] at hbuf
            simpa using parse_length_le [] (by simpa using hbuf) (Nat.zero_le _) htook hparse
        refine ⟨hparsed.trans hbatch.ge, fun hvalues => ?_⟩
        have hlists : b.keys_only = false := by rw [← hkeysOnly, ← hkeys, hvalues]
        have hretained : (regolith_iter_next_batch it.i batchEntries .writable .writable .writable
            .writable).2.batch_values = taken.map (·.value) :=
          hwell.values.trans (by simp [hlists])
        rw [hi, hretained, List.length_map]
        exact hparsed
  · rw [hi]
    exact hafter

theorem Tracks.Next (h : it.Tracks b) (hbelow : it.i.reset = true → it.KeysBelow entries merged)
    {answer : Bool × Option GoError} (hanswer : it.Next.1 = .ok answer) : it.Next.2.Tracks b := by
  obtain ⟨hcoherent, hkeysOnly, view, hview, hkept⟩ := h
  unfold Iter.Next at hanswer ⊢
  split_ifs at hanswer ⊢
  · exact ⟨hcoherent, hkeysOnly, view, hview, hkept⟩
  · exact ⟨⟨hcoherent.count, hcoherent.values⟩, hkeysOnly, view, hview, hkept⟩
  · exact ⟨⟨hcoherent.count, hcoherent.values⟩, hkeysOnly, view, hview, hkept⟩
  · exact refill_tracks cursorLaws txnLaws hkeysOnly hview hbelow hkept hanswer

theorem Tracks.Seek (h : it.Tracks b) (hbelow : it.KeysBelow entries merged) (key : Bytes)
    {answer : Bool × Option GoError} (hanswer : (it.Seek key).1 = .ok answer) :
    (it.Seek key).2.Tracks b := by
  obtain ⟨hcoherent, hkeysOnly, view, hview, hkept⟩ := h
  have hbounds : it.i.bounds = b := hkept.bounds
  rw [KeysBelow, hbounds] at hbelow
  have hsought : Sampled.Kept b (⟨(regolith_iter_seek it.i (bytePtr key) .writable .writable).2,
      it.i.source.view entries merged⟩ : Sampled C T S) := by
    simpa [IterEvent.sample, IterEvent.apply, IterCall.run, IterCall.samples] using
      hkept.seek cursorLaws txnLaws (bytePtr key) .writable .writable
  have hreset : (regolith_iter_seek it.i (bytePtr key) .writable .writable).2.reset = false := by
    simp [regolith_iter_seek, RegolithIter.seek_eq]
  rcases it.Seek_cases key with hclosed | ⟨err, herr⟩ | hend | hrefill
  · rw [hclosed]
    exact ⟨hcoherent, hkeysOnly, view, hview, hkept⟩
  · rw [herr]
    exact ⟨.of_nil rfl, hkeysOnly, _, hbelow, hsought⟩
  · rw [hend]
    exact ⟨.of_nil rfl, hkeysOnly, _, hbelow, hsought⟩
  · rw [hrefill] at hanswer ⊢
    refine refill_tracks cursorLaws txnLaws hkeysOnly hbelow (fun h => ?_) hsought hanswer
    simp [Iter.sought, hreset] at h

theorem Tracks.event (h : it.Tracks b) (event : Event T) (hmeets : event.Meets entries merged it) :
    (event.apply it).Tracks b := by
  obtain ⟨hcoherent, hkeysOnly, view, hview, hkept⟩ := h
  cases event with
  | close => exact ⟨⟨hcoherent.count, hcoherent.values⟩, hkeysOnly, view, hview, hkept⟩
  | handle txn =>
      exact ⟨⟨hcoherent.count, hcoherent.values⟩, hkeysOnly, view, hview,
        hkept.bounds, hkept.underway.with_handle txn⟩
  | call made =>
      have htracks : it.Tracks b := ⟨hcoherent, hkeysOnly, view, hview, hkept⟩
      cases made with
      | Next =>
          obtain ⟨hbelow, answer, hanswer⟩ := hmeets
          exact htracks.Next cursorLaws txnLaws hbelow hanswer
      | Seek key =>
          obtain ⟨hbelow, answer, hanswer⟩ := hmeets
          exact htracks.Seek cursorLaws txnLaws hbelow key hanswer
      | Reset => exact ⟨.of_nil rfl, hkeysOnly, view, hview, hkept.bounds, .restarting rfl⟩
      | Key => exact htracks
      | Value => exact htracks

omit cursorLaws txnLaws in
theorem Fresh.tracks {opts : IterOptions} (h : it.Fresh opts) : it.Tracks opts.bounds := by
  have hopened : ∃ source, it = .opened (.from_source source opts.bounds) opts := by
    cases h with
    | snapshot db h => exact newIter_db h
    | transaction closed resolved txn h => exact newIter_txn h
  obtain ⟨source, rfl⟩ := hopened
  have hnone : ∀ x ∈ opts.bounds.listing [], x.key.length < 2 ^ 31 :=
    fun x hx => absurd (Bounds.listing_subset hx) List.not_mem_nil
  exact ⟨.of_nil rfl, (bounds_keys_only opts).symm, [], hnone, sampled_opened source opts.bounds⟩

-- Throughout a run of walks over keys that an `int32` can measure, the index that the boundary
-- is asked for is in range, and the readers agree if and only if the value is one that an
-- `int32` can measure as well.
theorem readers_agree_iff {opts : IterOptions} {first : Iter (Source C T S)}
    {events : List (Event T)} (hfresh : first.Fresh opts)
    (run : Run (Moves entries merged) first events it) :
    (it.pos < it.ents.length → it.pos < it.i.batch_count) ∧
      ((∃ value, it.ReadersAgree value) ↔ ∀ value ∈ it.retained, value.length < 2 ^ 31) := by
  have htracks : it.Tracks opts.bounds := by
    refine run.invariant (I := fun _ it => it.Tracks opts.bounds) hfresh.tracks ?_
    rintro events it event it' - h ⟨hmeets, rfl⟩
    exact h.event cursorLaws txnLaws event hmeets
  exact ⟨fun hpos => hpos.trans_le htracks.coherent.count, readersAgree_iff htracks.coherent⟩

end Runs

end Iter

section Example

theorem fresh_overList (bad : Bytes → Bool) (contents : Contents) (opts : IterOptions) :
    (overList bad contents opts).Fresh opts :=
  .transaction false false _ (congrArg Prod.fst (newIter_overList bad contents opts))

-- Behind its first entry is one that cannot be read.
def brokenList :
    Iter (Source (ListCursor (· == [2])) (ListTxn (· == [2])) (ListStream (· == [2]))) :=
  overList _ (.ofPairs [([1], [10]), ([2], [20])]) ⟨[], [], [], false, false⟩

end Example

theorem readers_agree_iff_broken :
    let it := brokenList.Next.2
    it.pos < it.i.batch_count ∧ it.retained = some [10] ∧ ∃ value, it.ReadersAgree value := by
  intro it
  have hbad : ∃ key : Bytes, (key == [2]) = true := ⟨[2], rfl⟩
  have hfresh : brokenList.Fresh ⟨[], [], [], false, false⟩ := fresh_overList _ _ _
  have hanswer : ∃ answer, brokenList.Next.1 = .ok answer := ⟨_, by rfl⟩
  have hkeys : ∀ x ∈ ([⟨[1], [10]⟩, ⟨[2], [20]⟩] : List Item), x.key.length < 2 ^ 31 := by decide
  have run : Run (Iter.Moves (·.contents.entries) (·.contents.entries)) brokenList
      ([] ++ [.call .Next] ++ [.call .Value]) it :=
    .snoc (.snoc .nil ⟨⟨fun _ => hkeys, hanswer⟩, rfl⟩) ⟨trivial, rfl⟩
  have hagree := Iter.readers_agree_iff (ListCursor.faultyLaws hbad) (ListTxn.faultyLaws hbad)
    hfresh run
  have hretained : it.retained = some [10] := rfl
  refine ⟨hagree.1 (show 0 < 1 by decide), hretained, hagree.2.mpr fun value hvalue => ?_⟩
  obtain rfl : [10] = value := Option.some.inj (hretained.symm.trans hvalue)
  decide

section LongValue

-- One entry, with a value of one byte over and over.
def longValue (n : Nat) : Contents := ⟨[⟨[1], List.replicate n 0⟩], List.pairwise_singleton _ _⟩

def wholeRange : IterOptions := ⟨[], [], [], false, false⟩

theorem range_wholeRange (entries : List Item) : wholeRange.range entries = entries := by
  simp [IterOptions.range, IterOptions.includes, wholeRange]

theorem Iter.Ready.retained {σ : Type} [EntrySource σ] {it : Iter σ} {Cut : σ → Prop}
    {fin : Option Failure} {x : Item} {xs : List Item} (h : Iter.Ready Cut fin (some x) xs it)
    (hvalues : it.keysOnly = false) : it.Coherent ∧ it.retained = some x.value := by
  cases h with
  | @within taken _ _ _ hloaded hx =>
      have hlength : it.ents.length = taken.length := by rw [hloaded.ents, length_offsets]
      have hlt : it.pos < taken.length := (List.getElem?_eq_some_iff.mp hx).1
      have hretained : it.i.batch_values = taken.map (·.value) := by
        simpa [retained_values, hvalues] using hloaded.handed.batch_values
      refine ⟨⟨?_, fun _ => ?_⟩, ?_⟩
      · rw [hlength, hloaded.handed.batch_count]
      · rw [hlength, hretained, List.length_map]
      · simp [Iter.retained, hvalues, hlength, hlt.not_ge, hretained, hx]

end LongValue

-- A value of 2 GiB, which a transaction has in its buffer: two of the readers hand it over,
-- and `Value` panics.
theorem long_value_panic :
    let it := overList noBad (longValue 2147483648) wholeRange
    it.Fresh wholeRange ∧ it.Next.1 = .ok (true, none) ∧
      it.Next.2.Value = .error (.panic "gobytes: length out of range") ∧
      it.Next.2.AppendValue [] = .ok (List.replicate 2147483648 0, none) ∧
      ¬∃ value, it.Next.2.ReadersAgree value := by
  obtain ⟨n, hn⟩ : ∃ n : Nat, n = 2147483648 := ⟨_, rfl⟩
  rw [← hn]
  intro it
  have hwalks := Source.txn_walks (C := ListCursor noBad) ListTxn.soundLaws wholeRange.bounds
    (longValue n).entries
  rw [← range_eq_listing, range_wholeRange] at hwalks
  have hplaced : Placed wholeRange.bounds (longValue n).entries
      (Source.OverTxn (·.contents.entries) False (longValue n).entries) Source.Cut .start it.i :=
    placed_over ⟨by rintro _ ⟨⟩; rfl, fun _ => ⟨_, rfl, rfl⟩⟩
  have hlive : it.Live := ⟨rfl, rfl⟩
  have htaken : gathered false batchEntries 0 (longValue n).entries = (longValue n).entries := by
    simp [longValue, gathered, batchEntries]
  have hfit : BatchesFit it.keysOnly (longValue n).entries := by
    refine .batch ?_ ?_
    · rw [show it.keysOnly = false from rfl, htaken]
      simp [longValue, key_frame]
    · rw [show it.keysOnly = false from rfl, htaken, List.drop_length]
      exact .nil
  have harrives := Iter.refill_arrives Iter.fails_none hlive rfl
    (.coming rfl (hplaced.upcoming hwalks)) hfit
  rw [← Iter.Next_refill hlive (Nat.zero_le _) rfl] at harrives
  obtain ⟨hresult, hready⟩ := harrives
  have hvalues : it.Next.2.keysOnly = false := (Iter.Next_frame it).2
  obtain ⟨hcoherent, hretained⟩ := hready.retained hvalues
  change it.Next.2.retained = some (List.replicate n 0) at hretained
  have hlength : (List.replicate n (0 : UInt8)).length = n := List.length_replicate
  refine ⟨fresh_overList _ _ _, hresult, ?_, ?_, ?_⟩
  · rw [Iter.Value_retained hcoherent hretained, GoBytes_long (by omega) (by omega),
      if_neg (by omega)]
    rfl
  · have hne : List.replicate n (0 : UInt8) ≠ [] := by
      rw [← List.length_pos_iff]
      omega
    simp [Iter.AppendValue, Iter.borrowValue_eq hcoherent, hretained, Iter.readAs, hne]
  · rw [Iter.readersAgree_iff hcoherent, hretained]
    simp only [Option.mem_def, Option.some.injEq, forall_eq', hlength]
    omega

end Regolith.Go
