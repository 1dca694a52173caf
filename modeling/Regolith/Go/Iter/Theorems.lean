import Regolith.Go.Iter.Parse

-- Batches of keys taken ahead of the caller, as a walk over single entries.
namespace Regolith.Go

open Ffi Ffi.RegolithIter

-- What a failure that crosses the boundary becomes.
def surfaced (failure : Failure) : Option GoError :=
  statusToErr failure.status (failure.detail.map RegolithError.into_raw)

-- What `Value` returns at an entry.
def lent (keysOnly : Bool) (x : Item) : Option Bytes :=
  if keysOnly ∨ x.value = [] then none else some x.value

-- The frame of every batch that a walk over the entries takes can be indexed by an `int32`.
inductive BatchesFit (keysOnly : Bool) : List Item → Prop where
  | nil : BatchesFit keysOnly []
  | batch {xs : List Item}
      (hshort : (key_frame (gathered keysOnly batchEntries 0 xs)).length < 2 ^ 31)
      (hrest : BatchesFit keysOnly (xs.drop (gathered keysOnly batchEntries 0 xs).length)) :
      BatchesFit keysOnly xs

def ValuesFit (keysOnly : Bool) (xs : List Item) : Prop :=
  keysOnly = false → ∀ x ∈ xs, x.value.length < 2 ^ 31

theorem surfaced_isSome {failure : Failure} (h : failure.status ≠ OK) :
    (surfaced failure).isSome := by
  rw [Option.isSome_iff_ne_none]
  exact mt (statusToErr_eq_none_iff _ _).mp h

theorem surfaced_of_error (error : EngineError) : (surfaced (.of_error error)).isSome :=
  surfaced_isSome (of_error_status_ne error)

theorem batch_ne_nil (keysOnly : Bool) (x : Item) (xs : List Item) :
    gathered keysOnly batchEntries 0 (x :: xs) ≠ [] :=
  gathered_ne_nil keysOnly 255 0 x xs

theorem framable_of_short {xs : List Item} (h : (key_frame xs).length < 2 ^ 31) : Framable xs := by
  induction xs with
  | nil => simp [Framable]
  | cons x xs ih =>
      simp only [key_frame_cons, List.length_append, Radix.length_toLE] at h
      simp only [Framable, List.forall_mem_cons]
      exact ⟨by omega, ih (by omega)⟩

theorem BatchesFit.head {keysOnly : Bool} {xs : List Item} (h : BatchesFit keysOnly xs) :
    (key_frame (gathered keysOnly batchEntries 0 xs)).length < 2 ^ 31 := by
  cases h with
  | nil => simp [gathered, key_frame, batchEntries]
  | batch hshort => exact hshort

theorem ValuesFit.drop {keysOnly : Bool} {xs : List Item} (h : ValuesFit keysOnly xs)
    (count : Nat) : ValuesFit keysOnly (xs.drop count) :=
  fun hkeys x hx => h hkeys x (List.mem_of_mem_drop hx)

theorem ValuesFit.cons {keysOnly : Bool} {x : Item} {xs : List Item}
    (h : ValuesFit keysOnly (x :: xs)) :
    (keysOnly = false → x.value.length < 2 ^ 31) ∧ ValuesFit keysOnly xs :=
  ⟨fun hvalues => h hvalues x (by simp), fun hvalues y hy => h hvalues y (by simp [hy])⟩

namespace Iter

variable {σ : Type} [EntrySource σ] {it : Iter σ} {Cut : σ → Prop} {fin : Option Failure}
  {x : Item} {xs : List Item}

-- The iterator as a pull iterator of its own: any answer but a plain one is an error.
def answer (result : Except Crash (Bool × Option GoError)) :
    Except (Except Crash (Bool × Option GoError)) Bool :=
  match result with
  | .ok (found, none) => .ok found
  | other => .error other

def Reads (current : Option Item) (it : Iter σ) : Prop :=
  it.Key = .ok (current.map (·.key)) ∧ it.Value = .ok (current.bind (lent it.keysOnly), none)

def cursor : Pull (Iter σ) (Except Crash (Bool × Option GoError)) Item :=
  ⟨fun it => (answer it.Next.1, it.Next.2), Reads, fun _ => True⟩

-- How a walk ends.
def ending (fin : Option Failure) : Except Crash (Bool × Option GoError) :=
  .ok (false, fin.bind surfaced)

structure Live (it : Iter σ) : Prop where
  not_closed : it.db_closed = false
  keys_only : it.i.bounds.keys_only = it.keysOnly

section Moves

theorem Next_held (hlive : it.Live) (h : it.pos + 1 < it.ents.length) :
    it.Next = (.ok (true, none), { it with pos := it.pos + 1 }) := by
  simp [Next, hlive.not_closed, h]

theorem Next_refill (hlive : it.Live) (h : it.ents.length ≤ it.pos + 1) (hdone : it.done = false) :
    it.Next = it.refill := by
  simp [Next, hlive.not_closed, h, hdone]

theorem Next_done (hlive : it.Live) (h : it.ents = []) (hdone : it.done = true) :
    it.Next = (.ok (false, none), { it with pos := 0 }) := by
  simp [Next, hlive.not_closed, h, hdone]

theorem refill_i (it : Iter σ) :
    it.refill.2.i =
      (regolith_iter_next_batch it.i batchEntries .writable .writable .writable .writable).2 := by
  simp only [refill]
  generalize regolith_iter_next_batch it.i batchEntries .writable .writable .writable .writable =
    result
  obtain ⟨reply, i⟩ := result
  simp only
  split
  · rfl
  · rfl
  · split
    · rfl
    · split <;> rfl

-- What the boundary keeps over a batch, the iterator keeps.
theorem refill_keeps {Inv : RegolithIter σ → Prop} (inv : BatchInvariant Inv) (h : Inv it.i) :
    Inv it.refill.2.i := by
  rw [refill_i]
  exact inv.next_batch h batchEntries .writable .writable .writable .writable

theorem refill_frame (it : Iter σ) :
    it.refill.2.db_closed = it.db_closed ∧ it.refill.2.keysOnly = it.keysOnly := by
  simp only [refill]
  split
  · exact ⟨rfl, rfl⟩
  · exact ⟨rfl, rfl⟩
  · split
    · exact ⟨rfl, rfl⟩
    · split
      · exact ⟨rfl, rfl⟩
      · exact ⟨rfl, rfl⟩

theorem Next_keeps {Inv : RegolithIter σ → Prop} (inv : BatchInvariant Inv) (h : Inv it.i) :
    Inv it.Next.2.i := by
  unfold Next
  split_ifs
  · exact h
  · exact h
  · exact h
  · exact refill_keeps inv h

theorem Next_frame (it : Iter σ) :
    it.Next.2.db_closed = it.db_closed ∧ it.Next.2.keysOnly = it.keysOnly := by
  unfold Next
  split_ifs
  · exact ⟨rfl, rfl⟩
  · exact ⟨rfl, rfl⟩
  · exact ⟨rfl, rfl⟩
  · exact refill_frame it

theorem Live.refill (h : it.Live) : it.refill.2.Live := by
  obtain ⟨hclosed, hkeys⟩ := refill_frame it
  refine ⟨hclosed.trans h.not_closed, ?_⟩
  rw [refill_keeps (keepsBounds it.i.bounds) rfl, hkeys]
  exact h.keys_only

theorem Live.Next (h : it.Live) : it.Next.2.Live := by
  obtain ⟨hclosed, hkeys⟩ := Next_frame it
  refine ⟨hclosed.trans h.not_closed, ?_⟩
  rw [Next_keeps (keepsBounds it.i.bounds) rfl, hkeys]
  exact h.keys_only

end Moves

section Refill

-- What the next batch comes to, or that it is a failure held back.
inductive Awaits (Cut : σ → Prop) (fin : Option Failure) (xs : List Item)
    (i : RegolithIter σ) : Prop where
  | coming (hpending : i.pending = none) (hcoming : Upcoming Cut (fin.map .failure) xs i)
  | held (failure : Failure) (hpending : i.pending = some failure) (hnil : xs = [])
      (hfin : fin = some failure)

theorem awaits_of_between {i : RegolithIter σ} (h : Between Cut (fin.map .failure) xs i) :
    Awaits Cut fin xs i := by
  have hbetween := h
  cases h with
  | more hpending => exact .coming hpending (hbetween.upcoming hpending)
  | held failure hpending _ _ hnil hfin =>
      refine .held failure hpending hnil ?_
      cases fin with
      | none => simp at hfin
      | some failure' => simpa using hfin

-- The rest of `refill`, once the boundary has handed a frame over.
def load (it : Iter σ) (i : RegolithIter σ) (frame : Bytes) :
    Except Crash (Bool × Option GoError) × Iter σ :=
  match GoBytes frame (.ofNat frame.length) with
  | .error crash => (.error crash, { it with i := i, ents := [], pos := 0 })
  | .ok buf =>
      match parse buf buf.length 0 [] with
      | .error crash => (.error crash, { it with i := i, ents := [], pos := 0, buf := buf })
      | .ok ents => (.ok (true, none), { it with i := i, ents := ents, pos := 0, buf := buf })

-- What `refill` makes of a batch that the boundary answers with.
theorem refill_of_batch (it : Iter σ) {batch : KeyBatch}
    (h : (regolith_iter_next_batch it.i batchEntries .writable .writable .writable .writable).1 =
      guard .writable (.ok batch)) (hcount : batch.count ≠ 0) (hframe : batch.frame ≠ []) :
    it.refill = it.load (regolith_iter_next_batch it.i batchEntries .writable .writable .writable
      .writable).2 batch.frame := by
  simp only [refill]
  generalize regolith_iter_next_batch it.i batchEntries .writable .writable .writable .writable =
    result at *
  obtain ⟨reply, i⟩ := result
  obtain rfl : reply = _ := h
  have hlength : batch.frame.length ≠ 0 := by simpa using hframe
  simp only [guard_ok_out, guard_ok_status, Option.getD_some, takeBuf, statusToErr_ok, hlength,
    if_false, load]
  cases GoBytes batch.frame (.ofNat batch.frame.length) with
  | error crash => rfl
  | ok buf =>
      cases hparse : parse buf buf.length 0 [] <;> simp [Except.map, hcount, hparse]

theorem refill_of_empty (it : Iter σ)
    (h : (regolith_iter_next_batch it.i batchEntries .writable .writable .writable .writable).1 =
      guard .writable (.ok ⟨[], 0⟩)) :
    it.refill = (.ok (false, none),
      { it with
        i := (regolith_iter_next_batch it.i batchEntries .writable .writable .writable .writable).2,
        ents := [], pos := 0, done := true }) := by
  simp only [refill]
  generalize regolith_iter_next_batch it.i batchEntries .writable .writable .writable .writable =
    result at *
  obtain ⟨reply, i⟩ := result
  obtain rfl : reply = _ := h
  rfl

theorem refill_of_failure (it : Iter σ) {failure : Failure} (hfailure : failure.status ≠ OK)
    (h : (regolith_iter_next_batch it.i batchEntries .writable .writable .writable .writable).1 =
      guard .writable (fail failure)) :
    it.refill = (.ok (false, surfaced failure),
      { it with
        i := (regolith_iter_next_batch it.i batchEntries .writable .writable .writable .writable).2,
        ents := [], pos := 0 }) := by
  obtain ⟨err, herr⟩ := Option.isSome_iff_exists.mp (surfaced_isSome hfailure)
  have hstatus : statusToErr failure.status (failure.detail.map RegolithError.into_raw) =
      some err := herr
  simp only [refill]
  generalize regolith_iter_next_batch it.i batchEntries .writable .writable .writable .writable =
    result at *
  obtain ⟨reply, i⟩ := result
  obtain rfl : reply = _ := h
  simp only [guard_fail_status, guard_fail_err, takeBuf, hstatus, herr]

structure HandedOver (Cut : σ → Prop) (fin : Option Failure) (keysOnly : Bool)
    (taken later : List Item) (i : RegolithIter σ) : Prop where
  batch_values : i.batch_values = retained_values keysOnly taken
  batch_count : i.batch_count = taken.length
  between : Between Cut (fin.map .failure) later i

theorem refill_more (hlive : it.Live) (h : Awaits Cut fin (x :: xs) it.i) :
    (¬Framable (gathered it.keysOnly batchEntries 0 (x :: xs)) ∧
        ∃ err, it.refill.1 = .ok (false, some err)) ∨
      Framable (gathered it.keysOnly batchEntries 0 (x :: xs)) ∧
        ∃ i, HandedOver Cut fin it.keysOnly (gathered it.keysOnly batchEntries 0 (x :: xs))
            ((x :: xs).drop (gathered it.keysOnly batchEntries 0 (x :: xs)).length) i ∧
          it.refill = it.load i (key_frame (gathered it.keysOnly batchEntries 0 (x :: xs))) := by
  cases h with
  | held _ _ hnil => simp at hnil
  | coming hpending hcoming =>
      have hfin : ∀ payload, fin.map Raised.failure ≠ some (.panic payload) := by
        cases fin <;> simp
      have hyields := next_batch_yields hfin hcoming hpending (.inl (by simp))
        (show batchEntries ≠ 0 by decide) .writable
      rw [hlive.keys_only] at hyields
      have htaken := batch_ne_nil it.keysOnly x xs
      generalize gathered it.keysOnly batchEntries 0 (x :: xs) = taken at *
      rcases hyields with ⟨hlong, hreply⟩ | ⟨hshort, hover⟩
      · obtain ⟨err, herr⟩ := Option.isSome_iff_exists.mp
          (surfaced_isSome (show (Failure.other "key longer than 4 GiB").status ≠ OK by decide))
        refine .inl ⟨hlong, err, ?_⟩
        rw [refill_of_failure it (by decide) hreply, herr]
      · have hcount : taken.length ≠ 0 := by simpa using htaken
        have hframe : key_frame taken ≠ [] := by
          obtain ⟨y, ys, rfl⟩ := List.exists_cons_of_ne_nil htaken
          exact fun hnil => by simpa using congrArg List.length hnil
        have hvalues := hover.batch_values
        rw [hlive.keys_only] at hvalues
        have hrefill := refill_of_batch it hover.reply hcount hframe
        exact .inr ⟨hshort, _, ⟨hvalues, hover.batch_count, hover.between⟩, hrefill⟩

theorem refill_end (h : Awaits Cut none [] it.i) :
    it.refill.1 = .ok (false, none) ∧ it.refill.2.ents = [] ∧ it.refill.2.done = true := by
  cases h with
  | held _ _ _ hfin => simp at hfin
  | coming hpending hcoming =>
      have hyields := next_batch_yields (by simp) hcoming hpending (.inr rfl)
        (show batchEntries ≠ 0 by decide) .writable
      have hnil : gathered it.i.bounds.keys_only batchEntries 0 [] = [] := rfl
      rw [hnil] at hyields
      rcases hyields with ⟨hlong, -⟩ | ⟨-, hover⟩
      · simp [Framable] at hlong
      · rw [refill_of_empty it hover.reply]
        exact ⟨rfl, rfl, rfl⟩

theorem refill_failed {failure : Failure} (hfailure : failure.status ≠ OK)
    (h : Awaits Cut (some failure) [] it.i) : it.refill.1 = .ok (false, surfaced failure) := by
  have hreply : (regolith_iter_next_batch it.i batchEntries .writable .writable .writable
      .writable).1 = guard .writable (fail failure) := by
    cases h with
    | held failure' hpending _ hfin =>
        obtain rfl := Option.some.inj hfin
        rw [next_batch_pending hpending (by decide)]
    | coming hpending hcoming => exact next_batch_failed hcoming hpending (by decide) .writable
  rw [refill_of_failure it hfailure hreply]

end Refill

end Iter

end Regolith.Go
