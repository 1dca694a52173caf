import Regolith.Ffi.Iter.Position

-- Single steps, batches, seeks and resets, mixed on one iterator.
namespace Regolith.Ffi

inductive WalkCall where
  | next
  | next_batch (max_entries : Nat)
  | seek (target : Bytes)
  | reset

-- What a caller sees of one call: the reply, and what it reads back of the entries
-- reported, through `key` and `value` or through `batch_value`.
inductive Report where
  | stood (reply : Reply Bool) (key value : Reply Bytes)
  | batch (reply : Reply KeyBatch) (values : List (Reply (Option Bytes)))
  | done (reply : Reply Unit)

def Report.status : Report → Status
  | .stood reply _ _ => reply.status
  | .batch reply _ => reply.status
  | .done reply => reply.status

-- Valid = 0, or an empty batch.
def Report.Exhausted : Report → Prop
  | .stood reply _ _ => reply.out = some false
  | .batch reply _ => reply.out = some ⟨[], 0⟩
  | .done _ => False

def WalkCall.Advances : WalkCall → Prop
  | .next => True
  | .next_batch _ => True
  | .seek _ => False
  | .reset => False

section Run

variable {σ : Type} [EntrySource σ]

def stood (reply : Reply Bool) (it : RegolithIter σ) : Report :=
  .stood reply (regolith_iter_key it .writable .writable .writable)
    (regolith_iter_value it .writable .writable .writable)

def WalkCall.report (it : RegolithIter σ) : WalkCall → Report × RegolithIter σ
  | .next =>
      let (reply, it) := regolith_iter_next it .writable .writable
      (stood reply it, it)
  | .next_batch max_entries =>
      let (reply, it) :=
        regolith_iter_next_batch it max_entries .writable .writable .writable .writable
      let count := (reply.out.map (·.count)).getD 0
      let values := (List.range count).map
        (regolith_iter_batch_value it · .writable .writable .writable)
      (.batch reply values, it)
  | .seek target =>
      let (reply, it) := regolith_iter_seek it (Go.bytePtr target) .writable .writable
      (stood reply it, it)
  | .reset =>
      let (reply, it) := regolith_iter_reset it .writable
      (.done reply, it)

def reports (it : RegolithIter σ) : List WalkCall → List (WalkCall × Report)
  | [] => []
  | call :: calls => (call, (call.report it).1) :: reports (call.report it).2 calls

end Run

section Spec

variable (b : Bounds) (list : List Item)

def ReadsBack (entry : Option Item) (key value : Reply Bytes) : Prop :=
  match entry with
  | none => key.status = NOT_FOUND ∧ value.status = NOT_FOUND
  | some x => key.out = some x.key ∧ value.out = some (if b.keys_only then [] else x.value)

-- What a call at a position of the list reports, and the position it leaves.
def Position.Conforms (p : Position) : WalkCall → Report → Position → Prop
  | .next, .stood reply key value, after =>
      reply.out = some list[p.next]?.isSome ∧ ReadsBack b list[p.next]? key value ∧
        after = ⟨p.next + 1, false⟩
  | .next_batch max_entries, .batch reply values, after =>
      ∃ taken, taken <+: list.drop p.index ∧ taken.length ≤ max_entries ∧
        (taken = [] → list.drop p.index = []) ∧
        reply.out = some ⟨key_frame taken, taken.length⟩ ∧
        values.map (·.out) =
          taken.map (fun x => some (if b.keys_only then none else some x.value)) ∧
        after = ⟨p.index + taken.length, false⟩
  | .seek target, .stood reply key value, after =>
      let landing := list.findIdx (b.reached target)
      reply.out = some list[landing]?.isSome ∧ ReadsBack b list[landing]? key value ∧
        after = ⟨landing, true⟩
  | .reset, .done reply, after => reply.status = OK ∧ after = .start
  | _, _, _ => False

inductive Conform : Position → List (WalkCall × Report) → Prop where
  | nil (p : Position) : Conform p []
  | cons {p after : Position} {call : WalkCall} {report : Report}
      {rest : List (WalkCall × Report)} (hcall : p.Conforms b list call report after)
      (hrest : Conform after rest) : Conform p ((call, report) :: rest)

end Spec

namespace RegolithIter

open EntrySource

variable {σ : Type} [EntrySource σ] {b : Bounds} {list : List Item} {Live Cut : σ → Prop}
  {p : Position} {it : RegolithIter σ}

theorem readsBack {entry : Option Item} (h : Shows it.bounds entry it.source) :
    ReadsBack it.bounds entry (regolith_iter_key it .writable .writable .writable)
      (regolith_iter_value it .writable .writable .writable) := by
  have hin : it.in_range = entry.isSome := Shows.in_range h
  cases entry with
  | none =>
      refine ⟨?_, ?_⟩
      · simp [regolith_iter_key, current_key, hin, Failure.code]
      · simp [regolith_iter_value, hin, Failure.code]
  | some x =>
      refine ⟨?_, ?_⟩
      · simp [regolith_iter_key, current_key_of_shows h]
      · simp only [regolith_iter_value, hin, current_value_of_shows h]
        cases it.bounds.keys_only <;> simp

-- The values of a batch, read back by index.
omit [EntrySource σ] in
theorem batch_values_read {taken : List Item}
    (hvalues : it.batch_values = retained_values b.keys_only taken)
    (hcount : it.batch_count = taken.length) :
    ((List.range taken.length).map
        (regolith_iter_batch_value it · .writable .writable .writable)).map (·.out) =
      taken.map (fun x => some (if b.keys_only then none else some x.value)) := by
  have hread (index : Nat) (hindex : index < taken.length) :
      (regolith_iter_batch_value it index .writable .writable .writable).out =
        some (if b.keys_only then none else some taken[index].value) := by
    simp only [regolith_iter_batch_value, hcount, hvalues, retained_values]
    cases b.keys_only <;> simp [hindex, hindex.not_ge]
  apply List.ext_getElem
  · simp
  · intro index hindex _
    have hlt : index < taken.length := by simpa using hindex
    simpa using hread index hlt

-- One call, from any position.
theorem Placed.report (walks : Walks b list False Live Cut) (hsorted : list.Pairwise b.before)
    (h : Placed b list Live Cut p it) (call : WalkCall)
    (hcall : ∀ max_entries, call = .next_batch max_entries → max_entries ≠ 0) :
    ((call.report it).1.status ≠ OK ∧ ¬Framable list) ∨
      ∃ after, p.Conforms b list call (call.report it).1 after ∧
        (call.report it).1.status = OK ∧ Placed b list Live Cut after (call.report it).2 := by
  cases call with
  | next =>
      obtain ⟨hresult, hshows, hafter⟩ := h.advance walks
      have hback := readsBack (hafter.bounds ▸ hshows)
      rw [hafter.bounds] at hback
      have hreport : WalkCall.next.report it =
          (stood (guard .writable (.ok list[p.next]?.isSome)) it.advance.2, it.advance.2) := by
        simp [WalkCall.report, regolith_iter_next, hresult, Except.bind]
      rw [hreport]
      exact .inr ⟨_, ⟨rfl, hback, rfl⟩, rfl, hafter⟩
  | next_batch max_entries =>
      have hmax := hcall max_entries rfl
      have hbatch := h.next_batch walks hmax .writable
      have hfront := gathered_prefix b.keys_only max_entries 0 (list.drop p.index)
      have hlength := gathered_length_le b.keys_only max_entries 0 (list.drop p.index)
      have hempty : gathered b.keys_only max_entries 0 (list.drop p.index) = [] →
          list.drop p.index = [] := by
        obtain ⟨rounds, rfl⟩ := Nat.exists_eq_succ_of_ne_zero hmax
        cases list.drop p.index with
        | nil => simp
        | cons x xs => simp [gathered_ne_nil]
      generalize gathered b.keys_only max_entries 0 (list.drop p.index) = taken at *
      simp only [WalkCall.report]
      generalize regolith_iter_next_batch it max_entries .writable .writable .writable .writable =
        result at *
      obtain ⟨reply, after⟩ := result
      rcases hbatch with ⟨hlong, hreply⟩ | ⟨hshort, hover, hafter⟩
      · obtain rfl : reply = _ := hreply
        refine .inl ⟨?_, fun hframable => hlong fun x hx => ?_⟩
        · simp [Report.status, Failure.other, OTHER, OK]
        · exact hframable x (List.mem_of_mem_drop (hfront.subset hx))
      · have hreply := hover.reply
        have hvalues := hover.batch_values
        rw [h.bounds] at hvalues
        obtain rfl : reply = _ := hreply
        exact .inr ⟨_, ⟨taken, hfront, hlength, hempty, rfl,
          batch_values_read hvalues hover.batch_count, rfl⟩, rfl, hafter⟩
  | seek target =>
      obtain ⟨hresult, hshows, hafter⟩ := placed_seek walks hsorted h.bounds h.live target
      have hback := readsBack (hafter.bounds ▸ hshows)
      rw [hafter.bounds] at hback
      have hreport : (WalkCall.seek target).report it =
          (stood (guard .writable (.ok list[list.findIdx (b.reached target)]?.isSome))
            (it.seek target).2, (it.seek target).2) := by
        simp [WalkCall.report, regolith_iter_seek, hresult, Except.bind]
      rw [hreport]
      exact .inr ⟨_, ⟨rfl, hback, rfl⟩, rfl, hafter⟩
  | reset => exact .inr ⟨_, ⟨rfl, rfl⟩, rfl, placed_reset h.bounds h.live .writable⟩

-- A whole run, as long as every call returns OK.
theorem Placed.reports (walks : Walks b list False Live Cut) (hsorted : list.Pairwise b.before)
    (h : Placed b list Live Cut p it) {calls : List WalkCall} (hcalls : .next_batch 0 ∉ calls)
    (hok : ∀ entry ∈ Ffi.reports it calls, entry.2.status = OK) :
    Conform b list p (Ffi.reports it calls) := by
  induction calls generalizing p it with
  | nil => exact .nil p
  | cons call calls ih =>
      simp only [Ffi.reports, List.forall_mem_cons] at hok ⊢
      simp only [List.mem_cons, not_or] at hcalls
      have hmax : ∀ max_entries, call = .next_batch max_entries → max_entries ≠ 0 := by
        rintro max_entries rfl rfl
        exact hcalls.1 rfl
      rcases h.report walks hsorted call hmax with ⟨hfailed, -⟩ | ⟨after, hconforms, -, hafter⟩
      · exact absurd hok.1 hfailed
      · exact .cons hconforms (ih hafter hcalls.2 hok.2)

-- With keys that fit the frame every call does.
theorem Placed.reports_ok (walks : Walks b list False Live Cut) (hsorted : list.Pairwise b.before)
    (h : Placed b list Live Cut p it) (hframable : Framable list) {calls : List WalkCall}
    (hcalls : .next_batch 0 ∉ calls) :
    ∀ entry ∈ Ffi.reports it calls, entry.2.status = OK := by
  induction calls generalizing p it with
  | nil => simp [Ffi.reports]
  | cons call calls ih =>
      simp only [Ffi.reports, List.forall_mem_cons]
      simp only [List.mem_cons, not_or] at hcalls
      have hmax : ∀ max_entries, call = .next_batch max_entries → max_entries ≠ 0 := by
        rintro max_entries rfl rfl
        exact hcalls.1 rfl
      rcases h.report walks hsorted call hmax with ⟨-, hlong⟩ | ⟨after, -, hok, hafter⟩
      · exact absurd hframable hlong
      · exact ⟨hok, ih hafter hcalls.2⟩

end RegolithIter

section Exhaustion

variable {b : Bounds} {list : List Item} {p after : Position} {call : WalkCall} {report : Report}

-- Past the end of the list, and not on a landing that lies before it.
def Position.AtEnd (list : List Item) (p : Position) : Prop :=
  list.length ≤ p.index ∧ p.landed = false

theorem Position.Conforms.atEnd (h : p.Conforms b list call report after)
    (hcall : call.Advances) (hexhausted : report.Exhausted) : after.AtEnd list := by
  cases call with
  | next =>
      cases report with
      | stood reply key value =>
          obtain ⟨hout, -, rfl⟩ := h
          have hnone : list[p.next]?.isSome = false := by
            have hsame := hout.symm.trans hexhausted
            simpa using hsame
          have hlength : list.length ≤ p.next := by simpa using hnone
          exact ⟨by simp only; omega, rfl⟩
      | batch reply values => exact h.elim
      | done reply => exact h.elim
  | next_batch max_entries =>
      cases report with
      | batch reply values =>
          obtain ⟨taken, -, -, hempty, hout, -, rfl⟩ := h
          have hsame := hout.symm.trans hexhausted
          have hnil : taken = [] := by
            simp only [Option.some.injEq, KeyBatch.mk.injEq] at hsame
            exact List.length_eq_zero_iff.mp hsame.2
          have hlength := List.drop_eq_nil_iff.mp (hempty hnil)
          exact ⟨by simp only; omega, rfl⟩
      | stood reply key value => exact h.elim
      | done reply => exact h.elim
  | seek target => exact hcall.elim
  | reset => exact hcall.elim

theorem Position.Conforms.exhausted_of_atEnd (h : p.Conforms b list call report after)
    (hcall : call.Advances) (hend : p.AtEnd list) : report.Exhausted := by
  cases call with
  | next =>
      cases report with
      | stood reply key value =>
          obtain ⟨hout, -, -⟩ := h
          have hnone : list[p.next]? = none := by
            simp only [Position.next, hend.2, Bool.false_eq_true, if_false]
            exact List.getElem?_eq_none hend.1
          rw [hnone] at hout
          exact hout
      | batch reply values => exact h.elim
      | done reply => exact h.elim
  | next_batch max_entries =>
      cases report with
      | batch reply values =>
          obtain ⟨taken, hfront, -, -, hout, -, -⟩ := h
          rw [List.drop_eq_nil_iff.mpr hend.1, List.prefix_nil] at hfront
          subst hfront
          exact hout
      | stood reply key value => exact h.elim
      | done reply => exact h.elim
  | seek target => exact hcall.elim
  | reset => exact hcall.elim

theorem Conform.stays_exhausted {trace : List (WalkCall × Report)} (h : Conform b list p trace)
    (hend : p.AtEnd list) (hadvances : ∀ entry ∈ trace, entry.1.Advances) :
    ∀ entry ∈ trace, entry.2.Exhausted := by
  induction h with
  | nil p => simp
  | cons hcall hrest ih =>
      simp only [List.forall_mem_cons] at hadvances ⊢
      have hexhausted := hcall.exhausted_of_atEnd hadvances.1 hend
      exact ⟨hexhausted, ih (hcall.atEnd hadvances.1 hexhausted) hadvances.2⟩

-- The rest of a run, from the position that its first part has left.
theorem Conform.drop {before rest : List (WalkCall × Report)} (h : Conform b list p (before ++ rest)) :
    ∃ after, Conform b list after rest := by
  induction before generalizing p with
  | nil => exact ⟨p, h⟩
  | cons entry before ih =>
      cases h with
      | cons hcall hrest => exact ih hrest

theorem Conform.take {front rest : List (WalkCall × Report)} (h : Conform b list p (front ++ rest)) :
    Conform b list p front := by
  induction front generalizing p with
  | nil => exact .nil p
  | cons entry front ih =>
      cases h with
      | cons hcall hrest => exact .cons hcall (ih hrest)

end Exhaustion

-- One cursor under all the calls: a run in which every call returns OK reports the
-- entries of the range as the position in their list says, and once exhausted stays so
-- until it is repositioned. With keys that fit a frame every call returns OK.
theorem one_cursor {C T S : Type} [OwnedSnapshotIter C] [TxnScanStream S] [OwnedTransaction T S]
    {entries : C → List Item} (laws : CursorLaws entries False) (cursor : C) (b : Bounds)
    (calls : List WalkCall) (hcalls : .next_batch 0 ∉ calls) :
    let list := b.listing (entries cursor)
    let trace := reports (RegolithIter.over_snapshot T S cursor b) calls
    ((∀ entry ∈ trace, entry.2.status = OK) →
      Conform b list .start trace ∧
        ∀ before call report between rest,
          trace = before ++ (call, report) :: between ++ rest → call.Advances → report.Exhausted →
            (∀ entry ∈ between, entry.1.Advances) → ∀ entry ∈ between, entry.2.Exhausted) ∧
      (Framable list → ∀ entry ∈ trace, entry.2.status = OK) := by
  intro list trace
  have hwalks := Source.snapshot_walks (T := T) (S := S) laws b (entries cursor)
  have hsorted : list.Pairwise b.before := b.listing_sorted (laws.ascending cursor)
  have hplaced : RegolithIter.Placed b list (Source.OverSnapshot entries (entries cursor))
      Source.Cut .start (RegolithIter.over_snapshot T S cursor b) := RegolithIter.placed_over rfl
  refine ⟨fun hok => ?_, fun hframable => hplaced.reports_ok hwalks hsorted hframable hcalls⟩
  have hconform := hplaced.reports hwalks hsorted hcalls hok
  refine ⟨hconform, fun before call report between rest hsplit hcall hexhausted hadvances => ?_⟩
  have htrace : Conform b list .start (before ++ ((call, report) :: between ++ rest)) := by
    rw [List.append_assoc] at hsplit
    exact hsplit ▸ hconform
  obtain ⟨_, hfrom⟩ := htrace.drop
  cases hfrom.take with
  | cons hfirst hbetween =>
      exact hbetween.stays_exhausted (hfirst.atEnd hcall hexhausted) hadvances

theorem one_cursor_mixed :
    let contents := Contents.ofPairs [([1], [10]), ([2], [20]), ([3], [])]
    let b : Bounds := ⟨none, some [3], true, false⟩
    let calls := [.seek [2], .next_batch 1, .next, .next, .reset, .next_batch 7]
    let list := b.listing contents.entries
    let trace := reports (ListCursor.iter noBad [([1], [10]), ([2], [20]), ([3], [])] b) calls
    ((∀ entry ∈ trace, entry.2.status = OK) →
      Conform b list .start trace ∧
        ∀ before call report between rest,
          trace = before ++ (call, report) :: between ++ rest → call.Advances → report.Exhausted →
            (∀ entry ∈ between, entry.1.Advances) → ∀ entry ∈ between, entry.2.Exhausted) ∧
      (Framable list → ∀ entry ∈ trace, entry.2.status = OK) :=
  one_cursor ListCursor.soundLaws _ _ _ (by simp)

end Regolith.Ffi
