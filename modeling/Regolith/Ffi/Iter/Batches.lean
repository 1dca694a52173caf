import Regolith.Ffi.Iter.Framing
import Regolith.Ffi.Iter.Sampling

-- What a batch holds, how far it goes, and which values its indices reach.
namespace Regolith.Ffi

open EntrySource

section Gathered

-- Before its last entry a batch stays below the limit.
theorem gathered_dropLast (rounds : Nat) {retained : Nat}
    (hretained : retained < MAX_BATCH_VALUE_BYTES) (xs : List Item) :
    retained + ((gathered false rounds retained xs).dropLast.map (·.value.length)).sum <
      MAX_BATCH_VALUE_BYTES := by
  induction rounds generalizing retained xs with
  | zero => simpa [gathered] using hretained
  | succ rounds ih =>
      cases xs with
      | nil => simpa [gathered] using hretained
      | cons x xs =>
          simp only [gathered, Bool.false_eq_true, if_false]
          split
          · simpa using hretained
          · next hroom =>
              have hrest := ih (not_le.mp hroom) xs
              rcases hgathered : gathered false rounds (retained + x.value.length) xs with _ | ⟨y, ys⟩
              · simpa using hretained
              · rw [hgathered] at hrest
                rw [List.dropLast_cons_cons, List.map_cons, List.sum_cons, ← Nat.add_assoc]
                exact hrest

-- A batch that leaves rounds unused has reached the limit, or has taken everything.
theorem gathered_short {keys_only : Bool} {rounds retained : Nat} {xs : List Item}
    (h : (gathered keys_only rounds retained xs).length < rounds) :
    keys_only = false ∧ MAX_BATCH_VALUE_BYTES ≤
        retained + ((gathered keys_only rounds retained xs).map (·.value.length)).sum ∨
      gathered keys_only rounds retained xs = xs := by
  induction rounds generalizing retained xs with
  | zero => simp at h
  | succ rounds ih =>
      cases xs with
      | nil => exact .inr rfl
      | cons x xs =>
          simp only [gathered] at h ⊢
          cases keys_only with
          | true =>
              simp only [if_true, List.length_cons, Nat.add_lt_add_iff_right] at h ⊢
              exact (ih h).imp (fun hcap => absurd hcap.1 (by simp)) (by rintro hall; rw [hall])
          | false =>
              simp only [Bool.false_eq_true, if_false] at h ⊢
              split
              · next hfull => exact .inl ⟨trivial, by simpa using hfull⟩
              · next hroom =>
                  simp only [hroom, if_false, List.length_cons, Nat.add_lt_add_iff_right] at h
                  refine (ih h).imp (fun hcap => ⟨trivial, ?_⟩) (by rintro hall; rw [hall])
                  rw [List.map_cons, List.sum_cons, ← Nat.add_assoc]
                  exact hcap.2

theorem retained_pinned (keys_only : Bool) (max_entries : Nat) (xs : List Item) :
    ((retained_values keys_only (gathered keys_only max_entries 0 xs)).dropLast.map
      (·.length)).sum < MAX_BATCH_VALUE_BYTES := by
  cases keys_only with
  | true => simp [retained_values, MAX_BATCH_VALUE_BYTES]
  | false =>
      have hlast := gathered_dropLast max_entries (show 0 < MAX_BATCH_VALUE_BYTES by decide) xs
      simpa [retained_values, ← List.map_dropLast, Function.comp_def] using hlast

end Gathered

namespace RegolithIter

variable {σ : Type} [EntrySource σ] {it : RegolithIter σ} {Cut : σ → Prop} {failure : Failure}
  {x : Item} {xs : List Item}

theorem advance_in_batch_invalidate (it : RegolithIter σ) :
    it.invalidate_batch.advance_in_batch.1 = it.advance_in_batch.1 := by
  obtain ⟨bounds, source, reset, include_current, batch_values, batch_count, pending⟩ := it
  cases reset <;> cases include_current <;> rfl

-- A round that has room for its entry goes on to the rest.
theorem gather_room {rounds retained : Nat} {batch : KeyBatch} {next : RegolithIter σ}
    (hmove : it.advance_in_batch = (.ok true, next))
    (hshows : Shows next.bounds (some x) next.source) (hkeys : Framable (x :: xs))
    (hroom : next.bounds.keys_only = false →
      retained + ((x :: xs).map (·.value.length)).sum < MAX_BATCH_VALUE_BYTES) :
    ∃ batch' retained', 0 < batch'.count ∧
      (next.bounds.keys_only = false →
        retained' + (xs.map (·.value.length)).sum < MAX_BATCH_VALUE_BYTES) ∧
      it.gather (rounds + 1) batch retained = (next.framed x).gather rounds batch' retained' := by
  simp only [Framable, List.forall_mem_cons] at hkeys
  have hfits : ¬(next.bounds.keys_only = false ∧
      MAX_BATCH_VALUE_BYTES ≤ retained + x.value.length) := by
    rintro ⟨hvalues, hfull⟩
    have hlt := hroom hvalues
    rw [List.map_cons, List.sum_cons] at hlt
    omega
  rw [gather_found hmove hshows, if_neg (not_le.mpr hkeys.1), if_neg hfits]
  refine ⟨_, _, Nat.succ_pos _, fun hvalues => ?_, rfl⟩
  have hlt := hroom hvalues
  rw [List.map_cons, List.sum_cons] at hlt
  simp only [hvalues, Bool.false_eq_true, if_false]
  omega

-- With rounds to spare, the failure behind the last entry is met, and held back.
theorem gather_held {rounds retained : Nat} {batch : KeyBatch} (hcount : 0 < batch.count)
    (h : Between Cut (some (.failure failure)) xs it) (hpending : it.pending = none)
    (hrounds : xs.length < rounds) (hkeys : Framable xs)
    (hroom : it.bounds.keys_only = false →
      retained + (xs.map (·.value.length)).sum < MAX_BATCH_VALUE_BYTES) :
    (it.gather rounds batch retained).2.pending = some failure := by
  induction rounds generalizing xs retained batch it with
  | zero => simp at hrounds
  | succ rounds ih =>
      cases h with
      | held failure' hheld => simp [hheld] at hpending
      | more _ hreset hcurrent hyields =>
          have hmove := advance_in_batch_step hreset hcurrent
          cases xs with
          | nil =>
              have hresult : it.step = (.error (.failure failure), it.step.2) :=
                Prod.ext hyields.1 rfl
              rw [gather, hmove, hresult]
              simp [hcount.ne']
          | cons x xs =>
              obtain ⟨hok, hshows, hrest⟩ := hyields
              have hresult : it.advance_in_batch = (.ok true, it.step.2) :=
                hmove.trans (Prod.ext hok rfl)
              have hbetween : Between Cut (some (.failure failure)) xs it.step.2 :=
                .more hpending hreset hcurrent hrest
              obtain ⟨batch', retained', hcount', hroom', hgather⟩ :=
                gather_room hresult hshows hkeys hroom
              rw [hgather]
              exact ih hcount' (hbetween.framed x) hpending (by simpa using hrounds)
                (fun y hy => hkeys y (by simp [hy])) hroom'

theorem gather_first_held {rounds : Nat} (h : Upcoming Cut (some (.failure failure)) (x :: xs) it)
    (hpending : it.pending = none) (hrounds : xs.length < rounds) (hkeys : Framable (x :: xs))
    (hroom : it.bounds.keys_only = false →
      ((x :: xs).map (·.value.length)).sum < MAX_BATCH_VALUE_BYTES) :
    (it.gather (rounds + 1) ⟨[], 0⟩ 0).2.pending = some failure := by
  obtain ⟨next, hnext⟩ : ∃ next, next = it.advance_in_batch.2 := ⟨_, rfl⟩
  have hfields := advance_in_batch_fields it
  rw [← hnext] at hfields
  have hbounds : next.bounds = it.bounds := by rw [hfields]
  have hnone : next.pending = none := by rw [hfields, hpending]
  unfold Upcoming at h
  rw [← hnext, ← hbounds] at h
  have hstart : next.bounds.keys_only = false →
      0 + ((x :: xs).map (·.value.length)).sum < MAX_BATCH_VALUE_BYTES := by
    simpa [hbounds] using hroom
  obtain ⟨hok, hshows, hrest⟩ := h
  have hresult : it.advance_in_batch = (.ok true, next) := Prod.ext hok hnext.symm
  have hbetween : Between Cut (some (.failure failure)) xs next :=
    .more hnone (by rw [hfields]) (by rw [hfields]) hrest
  obtain ⟨batch', retained', hcount', hroom', hgather⟩ :=
    gather_room hresult hshows hkeys hstart
  rw [hgather]
  exact gather_held hcount' (hbetween.framed x) hnone hrounds (fun y hy => hkeys y (by simp [hy]))
    hroom'

end RegolithIter

-- The entries of a batch: consecutive ones of the list, each framed, counted and retained.
structure WellFormed {σ : Type} (keys_only : Bool) (list : List Item) (max_entries : Nat)
    (taken : List Item) (batch : KeyBatch) (it : RegolithIter σ) : Prop where
  entries : taken <:+: list
  frame : PrefixCode.Scan read_record 0 batch.frame (taken.map (·.key)) none
  count : batch.count = taken.length
  bounded : batch.count ≤ max_entries
  values : it.batch_values = if keys_only then [] else taken.map (·.value)
  pinned : (it.batch_values.dropLast.map (·.length)).sum < MAX_BATCH_VALUE_BYTES
  short : 0 < batch.count → batch.count < max_entries →
    MAX_BATCH_VALUE_BYTES ≤ (it.batch_values.map (·.length)).sum ∨ taken <:+ list ∨
      ∃ failure, it.pending = some failure

section Contents

variable {C T S : Type} [OwnedSnapshotIter C] [TxnScanStream S] [OwnedTransaction T S]
  {entries : C → List Item} {merged : T → List Item} {b : Bounds} {list xs : List Item}
  {it : RegolithIter (Source C T S)} {fin : Option Raised}

-- A step fails in an orderly way.
theorem Source.step_no_panic (b : Bounds) (source : Source C T S) (payload : Payload) :
    (EntrySource.step b source).1 ≠ .error (.panic payload) := by
  cases source with
  | Snapshot cursor =>
      simp only [entrySource_step, Source.step, moved, cursor_valid]
      split
      · split
        · simp
        · split <;> simp [fail]
      · simp
  | Txn txn stream current =>
      cases stream with
      | none => simp [Source.step, pull]
      | some stream =>
          simp only [entrySource_step, Source.step, pull]
          split
          · simp
          · split <;> simp [fail]

-- So only the move that begins a walk can panic.
theorem yields_no_panic {x : Item} {result : Except Raised Bool × Source C T S}
    (h : (walking b Source.Cut).Yields fin (x :: xs) result) (payload : Payload) :
    fin ≠ some (.panic payload) := by
  induction xs generalizing x result with
  | cons y ys ih => exact ih h.2.2
  | nil =>
      rintro rfl
      exact Source.step_no_panic b result.2 payload h.2.2.1

theorem Underway.coming (h : Underway list it) (hreset : it.reset = false) :
    (∃ xs fin, RegolithIter.Upcoming Source.Cut fin xs it ∧ Ahead list xs fin) ∨
      it.advance_in_batch.1 ≠ .ok true := by
  cases h with
  | restarting hrestart => simp [hreset] at hrestart
  | landed _ hcurrent hstands hahead =>
      exact .inl ⟨_, _, RegolithIter.upcoming_landed hreset hcurrent hstands, hahead⟩
  | moved _ hcurrent hyields hahead =>
      refine .inl ⟨_, _, ?_, hahead⟩
      unfold RegolithIter.Upcoming
      rw [RegolithIter.advance_in_batch_step hreset hcurrent]
      exact hyields
  | beyond _ hover =>
      cases hcurrent : it.include_current with
      | true =>
          rw [RegolithIter.advance_in_batch_landed hreset hcurrent]
          have hout : it.in_range = false := hover.shows
          simp [hout]
      | false =>
          rw [RegolithIter.advance_in_batch_step hreset hcurrent]
          have hstop : it.step.1 = .ok false := hover.stops
          simp [hstop]
  | cut _ hcut =>
      cases hcurrent : it.include_current with
      | true =>
          rw [RegolithIter.advance_in_batch_landed hreset hcurrent]
          have hout : it.in_range = false := (cut_step hcut).2.1
          simp [hout]
      | false =>
          rw [RegolithIter.advance_in_batch_step hreset hcurrent]
          exact .inr (cut_step hcut).2.2.1

omit [OwnedSnapshotIter C] [TxnScanStream S] [OwnedTransaction T S] in
theorem guard_ok_of_out {α : Type} {err : OutParam} {result : Except Raised α} {value : α}
    (h : (guard err result).out = some value) : result = .ok value := by
  rcases result with (failure | payload) | found
  · simp [guard] at h
  · simp [guard] at h
  · simpa using h

-- A batch whose first round finds nothing is empty, if it is handed over at all.
theorem next_batch_unfound (hpending : it.pending = none)
    (hnone : it.advance_in_batch.1 ≠ .ok true) {max_entries : Nat}
    (hmax : max_entries ≠ 0) {err : OutParam} {batch : KeyBatch}
    (h : (regolith_iter_next_batch it max_entries .writable .writable .writable err).1.out =
      some batch) :
    batch = ⟨[], 0⟩ ∧
      (regolith_iter_next_batch it max_entries .writable .writable .writable err).2.batch_values =
        [] := by
  obtain ⟨rounds, rfl⟩ := Nat.exists_eq_succ_of_ne_zero hmax
  have hfields := RegolithIter.advance_in_batch_fields it.invalidate_batch
  rw [← it.advance_in_batch_invalidate] at hnone
  rw [RegolithIter.next_batch_gather hpending hmax] at h ⊢
  rcases hmove : it.invalidate_batch.advance_in_batch with ⟨result, next⟩
  rw [hmove] at hnone hfields
  have hvalues : next.batch_values = [] := by
    rw [show next = _ from hfields]
    rfl
  simp only [RegolithIter.gather, hmove] at h ⊢
  rcases result with (failure | payload) | (_ | _)
  · simp [fail, guard] at h
  · simp [guard] at h
  · exact ⟨by simpa using h.symm, hvalues⟩
  · exact absurd rfl hnone

-- A batch with rounds to spare and room for more values has met the end, or a failure.
theorem next_batch_short (hpending : it.pending = none) {max_entries : Nat} {err : OutParam}
    (hfin : ∀ payload, fin ≠ some (.panic payload))
    (hupcoming : RegolithIter.Upcoming Source.Cut fin xs it) (hahead : Ahead list xs fin)
    (hkeys : Framable (gathered it.bounds.keys_only max_entries 0 xs))
    (hshort : (gathered it.bounds.keys_only max_entries 0 xs).length < max_entries)
    (hroom : ¬MAX_BATCH_VALUE_BYTES ≤ ((retained_values it.bounds.keys_only
      (gathered it.bounds.keys_only max_entries 0 xs)).map (·.length)).sum)
    (hsome : 0 < (gathered it.bounds.keys_only max_entries 0 xs).length) :
    gathered it.bounds.keys_only max_entries 0 xs <:+ list ∨
      ∃ failure, (regolith_iter_next_batch it max_entries .writable .writable .writable
        err).2.pending = some failure := by
  have hbelow (hvalues : it.bounds.keys_only = false) :
      ((gathered it.bounds.keys_only max_entries 0 xs).map (·.value.length)).sum <
        MAX_BATCH_VALUE_BYTES := by
    simpa [retained_values, hvalues, Function.comp_def] using hroom
  have hall : gathered it.bounds.keys_only max_entries 0 xs = xs := by
    refine (gathered_short hshort).resolve_left ?_
    rintro ⟨hvalues, hcap⟩
    have hlt := hbelow hvalues
    omega
  rw [hall] at hkeys hshort hbelow hsome ⊢
  cases fin with
  | none => exact .inl hahead.suffix
  | some raised =>
      cases raised with
      | panic payload => exact absurd rfl (hfin payload)
      | failure failure =>
          obtain ⟨x, xs, rfl⟩ := List.exists_cons_of_length_pos hsome
          obtain ⟨rounds, rfl⟩ := Nat.exists_eq_succ_of_ne_zero (Nat.ne_zero_of_lt hshort)
          have hheld := RegolithIter.gather_first_held hupcoming.invalidate_batch
            (show it.invalidate_batch.pending = none from hpending)
            (Nat.succ_lt_succ_iff.mp hshort) hkeys hbelow
          refine .inr ⟨failure, ?_⟩
          rw [RegolithIter.next_batch_gather hpending (Nat.succ_ne_zero rounds)]
          rcases hgather : it.invalidate_batch.gather (rounds + 1) ⟨[], 0⟩ 0 with
            ⟨raised | batch, after⟩
          · rw [hgather] at hheld
            exact hheld
          · rw [hgather] at hheld
            exact hheld

-- What a batch holds that is handed over.
theorem next_batch_well_formed (hpending : it.pending = none) {max_entries : Nat}
    (hmax : max_entries ≠ 0) {err : OutParam} {batch : KeyBatch}
    (hcoming : (∃ xs fin, RegolithIter.Upcoming Source.Cut fin xs it ∧ Ahead list xs fin) ∨
      it.advance_in_batch.1 ≠ .ok true)
    (h : (regolith_iter_next_batch it max_entries .writable .writable .writable err).1.out =
      some batch) :
    ∃ taken, WellFormed it.bounds.keys_only list max_entries taken batch
      (regolith_iter_next_batch it max_entries .writable .writable .writable err).2 := by
  rcases hcoming with ⟨xs, fin, hupcoming, hahead⟩ | hnone
  · by_cases hsome : xs ≠ [] ∨ fin = none
    · have hfin : ∀ payload, fin ≠ some (.panic payload) := by
        intro payload
        rcases hsome with hne | rfl
        · obtain ⟨x, xs, rfl⟩ := List.exists_cons_of_ne_nil hne
          exact yields_no_panic hupcoming payload
        · simp
      rcases RegolithIter.next_batch_yields hfin hupcoming hpending hsome hmax err with
        ⟨-, hreply⟩ | ⟨hkeys, hover⟩
      · rw [hreply] at h
        simp [fail, guard] at h
      · have hbatch := guard_ok_of_out (hover.reply ▸ h)
        rw [Except.ok.injEq] at hbatch
        subst hbatch
        have hrecords : ∀ key ∈ (gathered it.bounds.keys_only max_entries 0 xs).map (·.key),
            Recordable key := by
          simpa [Framable, Recordable] using hkeys
        have hfront := gathered_prefix it.bounds.keys_only max_entries 0 xs
        refine ⟨gathered it.bounds.keys_only max_entries 0 xs, hahead.infix hfront,
          ?_, rfl, gathered_length_le _ _ _ _, ?_, ?_, fun hpos hshort => ?_⟩
        · rw [key_frame_eq_pack]
          exact record_code.scan_pack 0 hrecords
        · rw [hover.batch_values, retained_values]
        · rw [hover.batch_values]
          exact retained_pinned _ _ _
        · rw [hover.batch_values, or_iff_not_imp_left]
          exact fun hroom => next_batch_short hpending hfin hupcoming hahead hkeys hshort hroom hpos
    · obtain ⟨rfl, raised, rfl⟩ : xs = [] ∧ ∃ raised, fin = some raised := by
        simpa [Option.ne_none_iff_exists'] using hsome
      rw [RegolithIter.next_batch_failed hupcoming hpending hmax] at h
      cases raised <;> simp [guard] at h
  · obtain ⟨rfl, hvalues⟩ := next_batch_unfound hpending hnone hmax h
    refine ⟨[], List.nil_infix, .done 0, rfl, Nat.zero_le _, ?_, ?_, fun hpos => ?_⟩
    · rw [hvalues]
      simp
    · rw [hvalues]
      decide
    · simp at hpos

end Contents

section Indices

-- The calls that put an end to a batch.
def IterCall.Rebatches : IterCall → Prop
  | .next_batch max_entries out out_len out_count _ =>
      max_entries ≠ 0 ∧ out = .writable ∧ out_len = .writable ∧ out_count = .writable
  | .seek target _ _ => (in_bytes target).isSome
  | .reset _ => True
  | _ => False

def IterReply.handed : IterReply → Option KeyBatch
  | .batch reply => reply.out
  | _ => none

-- What an index of a batch answers.
def indexed (keys_only : Bool) (taken : List Item) (index : Nat) :
    Except Raised (Option Bytes) :=
  match taken[index]? with
  | some x => .ok (if keys_only then none else some x.value)
  | none => fail (.invalid_arg "batch value index out of range")

section Calls

variable {σ : Type} [EntrySource σ] {it : RegolithIter σ}

omit [EntrySource σ] in
theorem batch_value_indexed {keys_only : Bool} {taken : List Item}
    (hvalues : it.batch_values = if keys_only then [] else taken.map (·.value))
    (hcount : it.batch_count = taken.length) (index : Nat) (err : OutParam) :
    regolith_iter_batch_value it index .writable .writable err =
      guard err (indexed keys_only taken index) := by
  simp only [regolith_iter_batch_value, hcount, hvalues, indexed]
  rcases Nat.lt_or_ge index taken.length with hlt | hge
  · rw [List.getElem?_eq_getElem hlt]
    cases keys_only <;> simp [hlt]
  · rw [List.getElem?_eq_none hge]
    simp [hge]

omit [EntrySource σ] in
theorem batch_value_none (hcount : it.batch_count = 0) (index : Nat) (err : OutParam) :
    (regolith_iter_batch_value it index .writable .writable err).status = INVALID_ARG := by
  simp [regolith_iter_batch_value, hcount, Failure.invalid_arg]

theorem gather_batch_count (rounds : Nat) (batch : KeyBatch) (retained : Nat) :
    (it.gather rounds batch retained).2.batch_count = it.batch_count := by
  induction rounds generalizing it batch retained with
  | zero => rfl
  | succ rounds ih =>
      have hfields := congrArg RegolithIter.batch_count it.advance_in_batch_fields
      rcases hmove : it.advance_in_batch with ⟨result, next⟩
      simp only [hmove] at hfields
      simp only [RegolithIter.gather, hmove]
      rcases result with (failure | payload) | (_ | _)
      · simp only
        split
        · exact hfields
        · exact hfields
      · exact hfields
      · exact hfields
      · simp only
        split
        · exact hfields
        · split
          · exact hfields
          · split
            · exact (ih _ _).trans hfields
            · split
              · exact hfields
              · exact (ih _ _).trans hfields

-- The count that the indices are held against is the one that was handed over, or zero.
theorem next_batch_count (it : RegolithIter σ) {max_entries : Nat} (hmax : max_entries ≠ 0)
    (err : OutParam) :
    (regolith_iter_next_batch it max_entries .writable .writable .writable err).2.batch_count =
      (((regolith_iter_next_batch it max_entries .writable .writable .writable err).1.out).map
        (·.count)).getD 0 := by
  cases hpending : it.pending with
  | some failure => simp [RegolithIter.next_batch_pending hpending hmax, RegolithIter.invalidate_batch]
  | none =>
      have hcount : (it.invalidate_batch.gather max_entries ⟨[], 0⟩ 0).2.batch_count = 0 :=
        gather_batch_count max_entries ⟨[], 0⟩ 0
      rw [RegolithIter.next_batch_gather hpending hmax]
      rcases hgather : it.invalidate_batch.gather max_entries ⟨[], 0⟩ 0 with
        ⟨(failure | payload) | batch, after⟩
      · rw [hgather] at hcount
        exact hcount
      · rw [hgather] at hcount
        exact hcount
      · rfl

-- Every other call leaves the batch to its indices.
theorem IterCall.run_keeps {call : IterCall} (h : ¬call.Rebatches) :
    (call.run it).2.batch_values = it.batch_values ∧
      (call.run it).2.batch_count = it.batch_count := by
  cases call with
  | next valid err =>
      cases hreset : it.reset with
      | false => simp [IterCall.run, regolith_iter_next, RegolithIter.advance_step hreset,
          RegolithIter.step]
      | true => simp [IterCall.run, regolith_iter_next, RegolithIter.advance_reset hreset,
          RegolithIter.restart]
  | next_batch max_entries out out_len out_count err =>
      have hbad : out = .null ∨ out_len = .null ∨ out_count = .null ∨ max_entries = 0 := by
        cases out <;> cases out_len <;> cases out_count <;> simp_all [IterCall.Rebatches]
      simp only [IterCall.run, (RegolithIter.next_batch_rejected hbad err).2]
      exact ⟨trivial, trivial⟩
  | seek target valid err =>
      have hnull : in_bytes target = none := by simpa [IterCall.Rebatches] using h
      simp only [IterCall.run, regolith_iter_seek, hnull]
      exact ⟨trivial, trivial⟩
  | reset err => exact absurd trivial h
  | key out out_len err => exact ⟨rfl, rfl⟩
  | value val val_len err => exact ⟨rfl, rfl⟩
  | batch_value idx val val_len err => exact ⟨rfl, rfl⟩

end Calls

variable {C T S : Type} [OwnedSnapshotIter C] [TxnScanStream S] [OwnedTransaction T S]
  {entries : C → List Item} {merged : T → List Item}

theorem IterEvent.foldl_keeps {later : List (IterEvent T)}
    (hlater : ∀ call, .call call ∈ later → ¬call.Rebatches) (it : RegolithIter (Source C T S)) :
    (later.foldl IterEvent.apply it).batch_values = it.batch_values ∧
      (later.foldl IterEvent.apply it).batch_count = it.batch_count := by
  induction later generalizing it with
  | nil => exact ⟨rfl, rfl⟩
  | cons event later ih =>
      obtain ⟨hvalues, hcount⟩ := ih (fun call hcall => hlater call (by simp [hcall]))
        (event.apply it)
      cases event with
      | handle txn => exact ⟨hvalues, hcount⟩
      | call made =>
          have hkeeps : (made.run it).2.batch_values = it.batch_values ∧
              (made.run it).2.batch_count = it.batch_count := IterCall.run_keeps (hlater made (by simp))
          exact ⟨hvalues.trans hkeeps.1, hcount.trans hkeeps.2⟩

-- What puts an end to a batch and hands over no other leaves no index to answer.
theorem IterCall.run_unhanded {it : RegolithIter (Source C T S)} {call : IterCall}
    (hcall : call.Rebatches) (hnone : (call.run it).1.handed = none) :
    (call.run it).2.batch_count = 0 := by
  cases call with
  | next_batch max_entries out out_len out_count err =>
      obtain ⟨hmax, rfl, rfl, rfl⟩ := hcall
      have hout : (regolith_iter_next_batch it max_entries .writable .writable .writable
          err).1.out = none := hnone
      have hcount := next_batch_count it hmax err
      rw [hout] at hcount
      exact hcount
  | seek target valid err =>
      obtain ⟨key, hkey⟩ := Option.isSome_iff_exists.mp hcall
      simp only [IterCall.run, regolith_iter_seek, hkey, RegolithIter.seek_eq]
      rfl
  | reset err => rfl
  | next valid err => exact hcall.elim
  | key out out_len err => exact hcall.elim
  | value val val_len err => exact hcall.elim
  | batch_value idx val val_len err => exact hcall.elim

-- The batch that a call hands over, against what the walk has sampled by then.
theorem Sampled.Kept.handed (cursorLaws : CursorLaws entries True)
    (txnLaws : TransactionLaws merged True) {b : Bounds} {s : Sampled C T S} (hkept : s.Kept b)
    {max_entries : Nat} (hmax : max_entries ≠ 0) {err : OutParam} {batch : KeyBatch}
    (hout : (regolith_iter_next_batch s.it max_entries .writable .writable .writable err).1.out =
      some batch) :
    let after := IterEvent.sample entries merged s
      (.call (.next_batch max_entries .writable .writable .writable err))
    ∃ taken, WellFormed b.keys_only (b.listing after.view) max_entries taken batch after.it ∧
      after.it.batch_count = taken.length := by
  intro after
  have hpending : s.it.pending = none := by
    by_contra hsome
    obtain ⟨failure, hpending⟩ := Option.ne_none_iff_exists'.mp hsome
    simp [RegolithIter.next_batch_pending hpending hmax] at hout
  have hcoming : (∃ xs fin, RegolithIter.Upcoming Source.Cut fin xs s.it ∧
      Ahead (b.listing after.view) xs fin) ∨ s.it.advance_in_batch.1 ≠ .ok true := by
    cases hreset : s.it.reset with
    | false =>
        have hview : after.view = s.view := by
          simp [after, IterEvent.sample, IterCall.samples, hreset]
        rw [hview]
        exact hkept.underway.coming hreset
    | true =>
        have hview : after.view = s.it.source.view entries merged := by
          simp [after, IterEvent.sample, IterCall.samples, hreset, hpending, hmax]
        obtain ⟨xs, fin, hyields, hahead⟩ := s.it.source.restart_ahead cursorLaws txnLaws b
        rw [hview]
        refine .inl ⟨xs, fin, ?_, hahead⟩
        simpa [RegolithIter.Upcoming, RegolithIter.advance_in_batch, hreset, RegolithIter.restart,
          hkept.bounds] using hyields
  obtain ⟨taken, hwell⟩ := next_batch_well_formed hpending hmax hcoming hout
  rw [hkept.bounds] at hwell
  have hcount := next_batch_count s.it hmax err
  rw [hout] at hcount
  exact ⟨taken, hwell, hcount.trans hwell.count⟩

-- In every state that calls, failures and changes to the transaction lead to: a batch that
-- is handed over holds consecutive entries of what is sampled, and its indices reach their
-- values until the next one; without one, no index is answered.
theorem batches_sound (cursorLaws : CursorLaws entries True)
    (txnLaws : TransactionLaws merged True) (source : Source C T S) (b : Bounds)
    (events later : List (IterEvent T)) (hlater : ∀ call, .call call ∈ later → ¬call.Rebatches) :
    let s := events.foldl (IterEvent.sample entries merged) ⟨.from_source source b, []⟩
    (∀ (max_entries : Nat) (err : OutParam) (batch : KeyBatch), max_entries ≠ 0 →
      let call : IterCall := .next_batch max_entries .writable .writable .writable err
      let after := IterEvent.sample entries merged s (.call call)
      (call.run s.it).1.handed = some batch →
      ∃ taken, WellFormed b.keys_only (b.listing after.view) max_entries taken batch after.it ∧
        ∀ index err', regolith_iter_batch_value (later.foldl IterEvent.apply after.it) index
          .writable .writable err' = guard err' (indexed b.keys_only taken index)) ∧
    ∀ call : IterCall, call.Rebatches → (call.run s.it).1.handed = none →
      ∀ index err', (regolith_iter_batch_value (later.foldl IterEvent.apply (call.run s.it).2) index
        .writable .writable err').status = INVALID_ARG := by
  intro s
  have hkept : s.Kept b := (sampled_opened source b).events cursorLaws txnLaws events
  constructor
  · intro max_entries err batch hmax call after hhanded
    obtain ⟨taken, hwell, hnow⟩ := hkept.handed cursorLaws txnLaws hmax hhanded
    refine ⟨taken, hwell, fun index err' => ?_⟩
    obtain ⟨hvalues, hcount⟩ := IterEvent.foldl_keeps hlater after.it
    exact batch_value_indexed (hvalues.trans hwell.values) (hcount.trans hnow) index err'
  · intro call hcall hnone index err'
    obtain ⟨-, hcount⟩ := IterEvent.foldl_keeps hlater (call.run s.it).2
    exact batch_value_none (hcount.trans (IterCall.run_unhanded hcall hnone)) index err'

theorem batches_sound_broken_second :
    let s : Sampled (ListCursor (· == [2])) (ListTxn (· == [2])) (ListStream (· == [2])) :=
      ⟨.from_source brokenSecond ⟨none, none, false, false⟩, []⟩
    let after := IterEvent.sample (·.contents.entries) (·.contents.entries) s
      (.call (.next_batch 8 .writable .writable .writable .writable))
    ∃ taken, WellFormed false ((⟨none, none, false, false⟩ : Bounds).listing after.view) 8 taken
        ⟨[1, 0, 0, 0, 1], 1⟩ after.it ∧
      ∀ index err', regolith_iter_batch_value
        ([.call (.next .writable .writable)].foldl IterEvent.apply after.it) index .writable
          .writable err' = guard err' (indexed false taken index) := by
  have hbad : ∃ key : Bytes, (key == [2]) = true := ⟨[2], rfl⟩
  have hsound := batches_sound (ListCursor.faultyLaws hbad) (ListTxn.faultyLaws hbad) brokenSecond
    ⟨none, none, false, false⟩ [] [.call (.next .writable .writable)] (by simp [IterCall.Rebatches])
  exact hsound.1 8 .writable ⟨[1, 0, 0, 0, 1], 1⟩ (by decide) rfl

end Indices

end Regolith.Ffi
