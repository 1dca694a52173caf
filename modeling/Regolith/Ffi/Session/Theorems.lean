import Regolith.Ffi.Iter.Theorems
import Regolith.Ffi.Session
import Regolith.Ffi.Txn.Theorems

-- What one call on a session asks of the engine transaction, and does to it.
namespace Regolith.Ffi

inductive Need where
  | nothing
  | alive
  | run (call : EngineCall)
  | resolve (call : EngineCall)

namespace Need

def calls : Need → List EngineCall
  | .nothing | .alive => []
  | .run call | .resolve call => [call]

def resolves : Need → Bool
  | .resolve _ => true
  | _ => false

-- Whether the transaction has to be there, as it stays.
def uses : Need → Bool
  | .alive | .run _ => true
  | _ => false

end Need

section Needs

variable {C T S : Type}

-- A stream is rebuilt by the first move after a reset, and by every seek.
def IterCall.need (it : RegolithIter (Source C T S)) (call : IterCall) : Need :=
  let scan := fun start end_ => Need.run (.scan_stream_in start end_ it.bounds.direction)
  match it.source, call with
  | .Txn _ _ _, .next _ _ =>
      if it.reset then scan it.bounds.start it.bounds.end_ else .nothing
  | .Txn _ _ _, .next_batch max_entries out out_len out_count _ =>
      if out = .null ∨ out_len = .null ∨ out_count = .null ∨ max_entries = 0 then .nothing
      else if it.pending.isSome ∨ it.reset = false then .nothing
      else scan it.bounds.start it.bounds.end_
  | .Txn _ _ _, .seek raw _ _ =>
      match in_bytes raw with
      | none => .nothing
      | some target =>
          if it.bounds.reverse then
            scan it.bounds.start (some (Source.reverse_end it.bounds target))
          else scan (some (Source.clamp_start it.bounds target)) it.bounds.end_
  | _, _ => .nothing

def SessionCall.need (s : Session C T S) : SessionCall → Need
  | .get_borrowed key _ _ _ _ | .has key _ _ =>
      match in_bytes key with
      | none => .nothing
      | some key => .run (.get_slice key)
  | .set key value _ =>
      if s.body.readonly then .nothing
      else
        match in_bytes key, in_bytes value with
        | some key, some value => .run (.put key value)
        | _, _ => .nothing
  | .delete key _ =>
      if s.body.readonly then .nothing
      else
        match in_bytes key with
        | none => .nothing
        | some key => .run (.delete key)
  | .iter _ out _ => if out = .null then .nothing else .alive
  | .discard _ | .free _ => .resolve .rollback
  | .commit _ => .resolve .commit
  | .on index call =>
      match s.iters[index]? with
      | none => .nothing
      | some it => call.need it

end Needs

section Ran

variable {T S R : Type} [OwnedTransaction T S]

-- The transaction as the engine leaves it.
def EngineCall.applied (t : T) : EngineCall → T
  | .get_slice key => (OwnedTransaction.get_slice t key).2
  | .put key value => (OwnedTransaction.put t key value).2
  | .delete key => (OwnedTransaction.delete t key).2
  | .scan_stream_in start end_ direction =>
      (OwnedTransaction.scan_stream_in t start end_ direction).2
  | .commit => (OwnedTransaction.commit t).2
  | .rollback => OwnedTransaction.rollback t

def Logged.after (txn : Logged T) (call : EngineCall) : Logged T :=
  ⟨call.applied txn.txn, txn.log ++ [call]⟩

@[simp] theorem Logged.after_log (txn : Logged T) (call : EngineCall) :
    (txn.after call).log = txn.log ++ [call] := rfl

namespace TxnInner

-- The body after a call of the engine: where there is a transaction it was reached.
structure Ran (call : EngineCall) (inner inner' : TxnInner (Logged T)) : Prop where
  poisoned : inner'.txn.poisoned = inner.txn.poisoned
  readonly : inner'.readonly = inner.readonly
  value : inner'.txn.value = inner.txn.value.map (Logged.after · call)

theorem with_txn_ran {inner : TxnInner (Logged T)} (hclean : inner.txn.poisoned = false)
    {call : EngineCall} {body : Logged T → Except Payload R × Logged T}
    (hbody : ∀ txn, (body txn).2 = txn.after call) : Ran call inner (inner.with_txn body).2 := by
  cases hvalue : inner.txn.value with
  | none =>
    rw [with_txn_resolved hclean hvalue]
    exact ⟨rfl, rfl, by simp [hvalue]⟩
  | some txn =>
    rw [with_txn_usable ⟨hclean, hvalue⟩]
    exact ⟨rfl, rfl, by simp [hvalue, hbody]⟩

end TxnInner

end Ran

section Handle

variable {C T S : Type} [OwnedSnapshotIter C] [TxnScanStream S] [OwnedTransaction T S]
  {it : RegolithIter (Source C T S)} {body : TxnInner T} {b : Bounds}

open RegolithIter

theorem snapshot_keeps_handle :
    BatchInvariant fun it : RegolithIter (Source C T S) => it.source.handle = none where
  advance it h := by
    have hrestart : (it.source.restart it.bounds).2.handle = none := by
      rcases hsource : it.source with cursor | ⟨txn, stream, current⟩
      · rfl
      · simp [hsource, Source.handle] at h
    simp only [advance_in_batch]
    split
    · exact hrestart
    · split
      · exact h
      · exact (step_handle it.bounds it.source).trans h
  batch _ _ _ h := h
  pending _ _ h := h

-- A call over a snapshot has no transaction to come near.
theorem snapshot_call (h : it.source.handle = none) (call : IterCall) :
    (call.run it).2.source.handle = none := by
  have hadvance (it : RegolithIter (Source C T S)) (h : it.source.handle = none) :
      it.restart.2.source.handle = none ∧ it.step.2.source.handle = none := by
    refine ⟨?_, (step_handle it.bounds it.source).trans h⟩
    rcases hsource : it.source with cursor | ⟨txn, stream, current⟩
    · simp [restart, on_source, hsource, Source.restart, Source.moved, Source.handle]
    · simp [hsource, Source.handle] at h
  cases call with
  | next valid err =>
    simp only [IterCall.run, regolith_iter_next, advance]
    split
    · exact (hadvance _ h).1
    · exact (hadvance _ h).2
  | next_batch max_entries out out_len out_count err =>
    exact snapshot_keeps_handle.next_batch h max_entries out out_len out_count err
  | seek raw valid err =>
    simp only [IterCall.run, regolith_iter_seek]
    cases in_bytes raw with
    | none => exact h
    | some target =>
      simp only [RegolithIter.seek_eq, on_source, EntrySource.seek]
      rcases hsource : it.source with cursor | ⟨txn, stream, current⟩
      · split
        · simp only [invalidate_batch, hsource, Source.entrySource_seek_reverse, Source.seek_reverse]
          split <;> rfl
        · simp [invalidate_batch, hsource, Source.seek_forward, Source.moved, Source.handle]
      · simp [hsource, Source.handle] at h
  | _ => exact h

omit [OwnedTransaction T S] [OwnedSnapshotIter C] in
theorem pull_handle (b : Bounds) (txn : TxnInner T) (stream : Option S) :
    (Source.pull (C := C) b txn stream).2.handle = some txn := by
  cases stream with
  | none => rfl
  | some stream =>
    simp only [Source.pull]
    split
    · rfl
    · split <;> rfl

end Handle

section Scan

variable {C T S : Type} [OwnedSnapshotIter C] [TxnScanStream S] [OwnedTransaction T S]
  {it : RegolithIter (Source C (Logged T) S)} {b : Bounds} {start end_ : Option Bytes}
  {body : TxnInner (Logged T)}

open RegolithIter

-- A body that a rebuilt stream leaves, and how the move it is for ends where the
-- transaction is gone.
def Scanned (b : Bounds) (start end_ : Option Bytes) (body : TxnInner (Logged T))
    (result : Except Raised Bool × Source C (Logged T) S) : Prop :=
  (∃ body', result.2.handle = some body' ∧
    TxnInner.Ran (.scan_stream_in start end_ b.direction) body body') ∧
  (body.txn.value = none → result.1 = fail (.code DISCARDED))

omit [OwnedSnapshotIter C] in
theorem rebuild_scanned (hclean : body.txn.poisoned = false) :
    Scanned b start end_ body (Source.rebuild (C := C) (S := S) b start end_ body) := by
  have hran : TxnInner.Ran (.scan_stream_in start end_ b.direction) body
      (body.with_txn (OwnedTransaction.scan_stream_in · start end_ b.direction)).2 :=
    TxnInner.with_txn_ran hclean fun txn => rfl
  constructor
  · unfold Source.rebuild
    generalize body.with_txn (OwnedTransaction.scan_stream_in · start end_ b.direction) = result at *
    obtain ⟨raised | fresh, body'⟩ := result
    · exact ⟨body', rfl, hran⟩
    · exact ⟨body', pull_handle b body' (some fresh), hran⟩
  · intro hnone
    simp only [Source.rebuild, TxnInner.with_txn_resolved hclean hnone]
    rfl

theorem restart_scanned (hclean : body.txn.poisoned = false)
    (hsource : it.source.handle = some body) :
    Scanned it.bounds it.bounds.start it.bounds.end_ body (it.source.restart it.bounds) := by
  rcases hit : it.source with cursor | ⟨txn, stream, current⟩
  · simp [hit, Source.handle] at hsource
  · obtain rfl : txn = body := by simpa [hit, Source.handle] using hsource
    exact rebuild_scanned hclean

-- How a call ends that asks for a scan.
def Served (engineCall : EngineCall) (body : TxnInner (Logged T)) (status : Status)
    (source : Source C (Logged T) S) : Prop :=
  (∃ body', source.handle = some body' ∧ TxnInner.Ran engineCall body body') ∧
    (body.txn.value = none → status = DISCARDED)

theorem next_served (hclean : body.txn.poisoned = false) (hsource : it.source.handle = some body)
    (hreset : it.reset = true) (valid err : OutParam) :
    Served (.scan_stream_in it.bounds.start it.bounds.end_ it.bounds.direction) body
      (regolith_iter_next it valid err).1.status (regolith_iter_next it valid err).2.source := by
  obtain ⟨hbody, hgone⟩ := restart_scanned hclean hsource
  have hadvance : it.advance.1 = (it.source.restart it.bounds).1 ∧
      it.advance.2.source = (it.source.restart it.bounds).2 := by
    rw [advance_reset hreset]
    exact ⟨rfl, rfl⟩
  simp only [regolith_iter_next]
  refine ⟨by rwa [hadvance.2], fun hnone => ?_⟩
  rw [hadvance.1, hgone hnone]
  rfl

theorem next_batch_served (hclean : body.txn.poisoned = false)
    (hsource : it.source.handle = some body) (hreset : it.reset = true) (hpending : it.pending = none)
    {max_entries : Nat} (hmax : max_entries ≠ 0) (err : OutParam) :
    let after := regolith_iter_next_batch it max_entries .writable .writable .writable err
    Served (.scan_stream_in it.bounds.start it.bounds.end_ it.bounds.direction) body
      after.1.status after.2.source := by
  obtain ⟨rounds, rfl⟩ := Nat.exists_eq_succ_of_ne_zero hmax
  obtain ⟨⟨body', hbody, hran⟩, hgone⟩ := restart_scanned hclean hsource
  have hadvance : it.invalidate_batch.advance_in_batch =
      ((it.source.restart it.bounds).1, { it.invalidate_batch with
        source := (it.source.restart it.bounds).2, reset := false, include_current := false }) := by
    simp [advance_in_batch, invalidate_batch, hreset, RegolithIter.restart, on_source]
  have hafter : (it.invalidate_batch.gather (rounds + 1) ⟨[], 0⟩ 0).2.reset = false ∧
      (it.invalidate_batch.gather (rounds + 1) ⟨[], 0⟩ 0).2.source.handle = some body' :=
    (batch_keeps_handle (some body')).gather_after
      (fun _ _ _ => (batch_keeps_handle (some body')).gather rounds _ _) ⟨[], 0⟩ 0
      (by rw [hadvance]; exact ⟨rfl, hbody⟩)
  have hfirst : body.txn.value = none →
      (it.invalidate_batch.gather (rounds + 1) ⟨[], 0⟩ 0).1 = fail (.code DISCARDED) := by
    intro hnone
    rw [gather, hadvance, hgone hnone]
    rfl
  rw [RegolithIter.next_batch_gather hpending hmax]
  generalize it.invalidate_batch.gather (rounds + 1) ⟨[], 0⟩ 0 = result at *
  obtain ⟨raised | batch, after⟩ := result
  · refine ⟨⟨body', hafter.2, hran⟩, fun hnone => ?_⟩
    obtain rfl := Except.error.inj (hfirst hnone)
    rfl
  · exact ⟨⟨body', hafter.2, hran⟩, fun hnone => by cases hfirst hnone⟩

theorem seek_served (hclean : body.txn.poisoned = false) {stream : Option S} {current : Option Entry}
    (htxn : it.source = .Txn body stream current) {raw : InBytes} {target : Bytes}
    (hraw : in_bytes raw = some target) (valid err : OutParam) :
    let range := if it.bounds.reverse then
        (it.bounds.start, some (Source.reverse_end it.bounds target))
      else (some (Source.clamp_start it.bounds target), it.bounds.end_)
    Served (.scan_stream_in range.1 range.2 it.bounds.direction) body
      (regolith_iter_seek it raw valid err).1.status (regolith_iter_seek it raw valid err).2.source := by
  intro range
  have hrebuild : EntrySource.seek it.bounds target it.source =
      Source.rebuild it.bounds range.1 range.2 body := by
    simp only [EntrySource.seek, htxn, range]
    split <;> rfl
  obtain ⟨hbody, hgone⟩ : Scanned it.bounds range.1 range.2 body
      (EntrySource.seek it.bounds target it.source) := by
    rw [hrebuild]
    exact rebuild_scanned hclean
  simp only [regolith_iter_seek, hraw, RegolithIter.seek_eq, on_source]
  refine ⟨hbody, fun hnone => ?_⟩
  simp only [invalidate_batch, hgone hnone]
  rfl

-- What a call does to the body behind its iterator.
theorem call_met (hclean : body.txn.poisoned = false) (hsource : it.source.handle = some body)
    (call : IterCall) :
    (call.need it = .nothing ∧ (call.run it).2.source.handle = some body) ∨
    ∃ engineCall, call.need it = .run engineCall ∧
      Served engineCall body (call.run it).1.status (call.run it).2.source := by
  obtain ⟨stream, current, htxn⟩ : ∃ stream current, it.source = .Txn body stream current := by
    rcases hit : it.source with cursor | ⟨txn, stream, current⟩
    · simp [hit, Source.handle] at hsource
    · exact ⟨stream, current, by simpa [hit, Source.handle] using hsource⟩
  cases call with
  | next valid err =>
    cases hreset : it.reset with
    | false =>
      refine .inl ⟨by simp [IterCall.need, htxn, hreset], ?_⟩
      simp only [IterCall.run, regolith_iter_next, advance_step hreset]
      exact (step_handle it.bounds it.source).trans hsource
    | true =>
      exact .inr ⟨_, by simp [IterCall.need, htxn, hreset],
        next_served hclean hsource hreset valid err⟩
  | next_batch max_entries out out_len out_count err =>
    by_cases hargs : out = .null ∨ out_len = .null ∨ out_count = .null ∨ max_entries = 0
    · refine .inl ⟨by simp [IterCall.need, htxn, hargs], ?_⟩
      have hsame : (regolith_iter_next_batch it max_entries out out_len out_count err).2 = it :=
        (next_batch_rejected hargs err).2
      simp only [IterCall.run, hsame, hsource]
    · have hneed : (IterCall.next_batch max_entries out out_len out_count err).need it =
          if it.pending.isSome ∨ it.reset = false then .nothing
          else .run (.scan_stream_in it.bounds.start it.bounds.end_ it.bounds.direction) := by
        simp only [IterCall.need, htxn, if_neg hargs]
      obtain ⟨rfl, rfl, rfl, hmax⟩ :
          out = .writable ∧ out_len = .writable ∧ out_count = .writable ∧ max_entries ≠ 0 := by
        cases out <;> cases out_len <;> cases out_count <;> simp_all
      cases hreset : it.reset with
      | false =>
        refine .inl ⟨by simp [hneed, hreset], ?_⟩
        have hkept := (batch_keeps_handle (some body)).next_batch ⟨hreset, hsource⟩ max_entries
          .writable .writable .writable err
        simpa only [IterCall.run] using hkept.2
      | true =>
        cases hpending : it.pending with
        | some failure =>
          refine .inl ⟨by simp [hneed, hpending], ?_⟩
          simp only [IterCall.run, RegolithIter.next_batch_pending hpending hmax]
          exact hsource
        | none =>
          exact .inr ⟨_, by simp [hneed, hreset, hpending],
            next_batch_served hclean hsource hreset hpending hmax err⟩
  | seek raw valid err =>
    cases hraw : in_bytes raw with
    | none =>
      refine .inl ⟨by simp [IterCall.need, htxn, hraw], ?_⟩
      simp [IterCall.run, regolith_iter_seek, hraw, hsource]
    | some target =>
      refine .inr ⟨_, ?_, seek_served hclean htxn hraw valid err⟩
      simp only [IterCall.need, htxn, hraw]
      split <;> rfl
  | reset err => exact .inl ⟨by simp [IterCall.need, htxn], hsource⟩
  | key out out_len err => exact .inl ⟨by simp [IterCall.need, htxn], hsource⟩
  | value val val_len err => exact .inl ⟨by simp [IterCall.need, htxn], hsource⟩
  | batch_value idx val val_len err => exact .inl ⟨by simp [IterCall.need, htxn], hsource⟩

end Scan

namespace Session

variable {C T S : Type}

def live (s : Session C T S) : Bool := s.body.txn.value.isSome

def clean (s : Session C T S) : Prop := s.body.txn.poisoned = false

section Meets

variable [OwnedTransaction T S]

-- What a call does where its need is `need`.
structure Meets (need : Need) (s s' : Session C (Logged T) S) : Prop where
  clean : s'.clean
  readonly : s'.body.readonly = s.body.readonly
  value : s'.body.txn.value =
    if need.resolves then none else s.body.txn.value.map (need.calls.foldl Logged.after)
  log : s'.log = s.log ++ if s.live then need.calls else []

variable {s s' : Session C (Logged T) S} {need : Need}

theorem Meets.live (h : Meets need s s') : s'.live = (s.live && !need.resolves) := by
  unfold Session.live
  rw [h.value]
  cases need.resolves <;> simp

theorem meets_of_same (hclean : s.clean) (hbody : s'.body = s.body) (hspent : s'.spent = s.spent)
    (hneed : s.live = false ∨ need.calls = [] ∧ need.resolves = false) : Meets need s s' := by
  have hlog : s'.log = s.log := by simp [log, hbody, hspent]
  refine ⟨by rwa [Session.clean, hbody], by rw [hbody], ?_, ?_⟩
  · rcases hneed with h | ⟨hcalls, hresolves⟩
    · have hnone : s.body.txn.value = none := by simpa [Session.live] using h
      simp [hbody, hnone]
    · simp [hbody, hcalls, hresolves]
  · rcases hneed with h | ⟨hcalls, -⟩
    · simp [hlog, h]
    · simp [hlog, hcalls]

theorem meets_of_ran (hclean : s.clean) (hspent : s'.spent = s.spent) {call : EngineCall}
    (h : TxnInner.Ran call s.body s'.body) : Meets (.run call) s s' := by
  refine ⟨h.poisoned.trans hclean, h.readonly, ?_, ?_⟩
  · simp [h.value, Need.resolves, Need.calls]
  · cases hvalue : s.body.txn.value <;>
      simp [log, Session.live, h.value, hvalue, hspent, Need.calls]

theorem meets_of_resolved (hclean : s.clean) {call : EngineCall}
    (hlive : ∀ txn, s.body.txn.value = some txn →
      s'.body = s.body.holding none ∧ s'.spent = some (txn.after call))
    (hgone : s.body.txn.value = none → s'.body = s.body ∧ s'.spent = s.spent) :
    Meets (.resolve call) s s' := by
  cases hvalue : s.body.txn.value with
  | none =>
    obtain ⟨hbody, hspent⟩ := hgone hvalue
    exact meets_of_same hclean hbody hspent (.inl (by simp [Session.live, hvalue]))
  | some txn =>
    obtain ⟨hbody, hspent⟩ := hlive txn hvalue
    refine ⟨by simpa [Session.clean, hbody] using hclean, by simp [hbody], ?_, ?_⟩
    · simp [hbody, Need.resolves]
    · simp [log, Session.live, hbody, hvalue, hspent, Need.calls]

end Meets

theorem need_with_handle (it : RegolithIter (Source C T S)) (body : TxnInner T) (call : IterCall) :
    call.need { it with source := it.source.with_handle body } = call.need it := by
  rcases hit : it.source with cursor | ⟨txn, stream, current⟩ <;> cases call <;>
    simp [IterCall.need, hit, Source.with_handle]

theorem handle_of_with_handle {it there : RegolithIter (Source C T S)} {body body' : TxnInner T}
    (hthere : { it with source := it.source.with_handle body } = there)
    (hhandle : there.source.handle = some body') : body' = body := by
  subst hthere
  rcases hcursor : it.source with cursor | ⟨txn, stream, current⟩ <;>
    simp_all [Source.handle, Source.with_handle]

section Step

variable [OwnedSnapshotIter C] [TxnScanStream S] [OwnedTransaction T S]
  {s : Session C (Logged T) S}

omit [OwnedSnapshotIter C] [TxnScanStream S] [OwnedTransaction T S] in
theorem over_txn_gone (hclean : s.clean) (hgone : s.body.txn.value = none) (b : Bounds) :
    (RegolithIter.over_txn C S s.body b).1 = fail (.code DISCARDED) := by
  simp only [RegolithIter.over_txn, TxnInner.with_txn_resolved hclean hgone]
  rfl

omit [OwnedSnapshotIter C] [TxnScanStream S] [OwnedTransaction T S] in
theorem over_txn_keeps (hclean : s.clean) (b : Bounds) :
    (RegolithIter.over_txn C S s.body b).2 = s.body := by
  cases hvalue : s.body.txn.value with
  | none =>
    simp only [RegolithIter.over_txn, TxnInner.with_txn_resolved hclean hvalue]
    exact TxnInner.holding_self hvalue
  | some txn =>
    simp only [RegolithIter.over_txn, TxnInner.with_txn_usable ⟨hclean, hvalue⟩]
    exact TxnInner.holding_self hvalue

-- A call that resolves nothing asks for nothing, or the engine runs for it and it says so
-- where the transaction is gone.
structure Answered (s : Session C (Logged T) S) (need : Need)
    (result : Option Status × Session C (Logged T) S) : Prop where
  spent : result.2.spent = s.spent
  reached : need = .nothing ∧ result.2.body = s.body ∨
    ∃ call, need = .run call ∧ TxnInner.Ran call s.body result.2.body ∧
      (s.body.txn.value = none → result.1 = some DISCARDED)

section Answered

variable {need : Need} {result : Option Status × Session C (Logged T) S}

omit [OwnedSnapshotIter C] [TxnScanStream S] in
theorem answered_nothing (hbody : result.2.body = s.body) (hspent : result.2.spent = s.spent) :
    Answered s .nothing result :=
  ⟨hspent, .inl ⟨rfl, hbody⟩⟩

omit [OwnedSnapshotIter C] [TxnScanStream S] in
theorem answered_run {R : Type} (hclean : s.clean) {call : EngineCall}
    {body : Logged T → Except Payload R × Logged T} (hbody : ∀ txn, (body txn).2 = txn.after call)
    {status : Status}
    (hstatus : (s.body.with_txn body).1 = fail (.code DISCARDED) → status = DISCARDED) :
    Answered s (.run call) (some status, { s with body := (s.body.with_txn body).2 }) := by
  refine ⟨rfl, .inr ⟨call, rfl, TxnInner.with_txn_ran hclean hbody, fun hgone => ?_⟩⟩
  have hrun := TxnInner.with_txn_resolved hclean hgone body
  rw [hstatus (by rw [hrun])]

omit [OwnedSnapshotIter C] [TxnScanStream S] in
theorem Answered.met (h : Answered s need result) (hclean : s.clean) : Meets need s result.2 := by
  rcases h.reached with ⟨rfl, hbody⟩ | ⟨call, rfl, hran, -⟩
  · exact meets_of_same hclean hbody h.spent (.inr ⟨rfl, rfl⟩)
  · exact meets_of_ran hclean h.spent hran

omit [OwnedSnapshotIter C] [TxnScanStream S] in
theorem Answered.gone (h : Answered s need result) (hgone : s.body.txn.value = none)
    (huses : need.uses = true) : result.1 = some DISCARDED := by
  rcases h.reached with ⟨rfl, -⟩ | ⟨call, rfl, -, hstatus⟩
  · exact Bool.noConfusion huses
  · exact hstatus hgone

end Answered

theorem get_borrowed_answered (hclean : s.clean) (key : InBytes)
    (val val_len value_handle err : OutParam) :
    let call := SessionCall.get_borrowed key val val_len value_handle err
    Answered s (call.need s) (s.step call) := by
  simp only [step, SessionCall.need, regolith_txn_get_borrowed]
  cases in_bytes key with
  | none => exact answered_nothing rfl rfl
  | some key => exact answered_run hclean (fun _ => rfl) fun h => by simp only [h]; rfl

theorem has_answered (hclean : s.clean) (key : InBytes) (found err : OutParam) :
    let call := SessionCall.has key found err
    Answered s (call.need s) (s.step call) := by
  simp only [step, SessionCall.need, regolith_txn_has]
  cases in_bytes key with
  | none => exact answered_nothing rfl rfl
  | some key => exact answered_run hclean (fun _ => rfl) fun h => by simp only [h]; rfl

theorem set_answered (hclean : s.clean) (key value : InBytes) (err : OutParam) :
    let call := SessionCall.set key value err
    Answered s (call.need s) (s.step call) := by
  simp only [step, SessionCall.need, regolith_txn_set]
  cases s.body.readonly with
  | true => exact answered_nothing rfl rfl
  | false =>
    cases in_bytes key with
    | none => exact answered_nothing rfl rfl
    | some key =>
      cases in_bytes value with
      | none => exact answered_nothing rfl rfl
      | some value => exact answered_run hclean (fun _ => rfl) fun h => by simp only [h]; rfl

theorem delete_answered (hclean : s.clean) (key : InBytes) (err : OutParam) :
    let call := SessionCall.delete key err
    Answered s (call.need s) (s.step call) := by
  simp only [step, SessionCall.need, regolith_txn_delete]
  cases s.body.readonly with
  | true => exact answered_nothing rfl rfl
  | false =>
    cases in_bytes key with
    | none => exact answered_nothing rfl rfl
    | some key => exact answered_run hclean (fun _ => rfl) fun h => by simp only [h]; rfl

-- A call on an iterator finds the body through the iterator's own source.
theorem on_answered (hclean : s.clean) (index : Nat) (call : IterCall) :
    Answered s ((SessionCall.on index call).need s) (s.step (.on index call)) := by
  cases hit : s.iters[index]? with
  | none =>
    simp only [step, SessionCall.need, hit]
    exact answered_nothing rfl rfl
  | some it =>
    simp only [step, SessionCall.need, hit]
    rw [← need_with_handle it s.body call]
    generalize hthere : { it with source := it.source.with_handle s.body } = there
    cases hsource : there.source.handle with
    | none =>
      have hnothing : call.need there = .nothing := by
        rcases hcursor : there.source with cursor | ⟨txn, stream, current⟩
        · cases call <;> simp [IterCall.need, hcursor]
        · simp [hcursor, Source.handle] at hsource
      have hnone := snapshot_call hsource call
      rw [hnothing]
      exact answered_nothing (by simp [hnone]) rfl
    | some body =>
      obtain rfl : body = s.body := handle_of_with_handle hthere hsource
      rcases call_met hclean hsource call with ⟨hneed, hsame⟩ | ⟨engineCall, hneed, hserved⟩
      · rw [hneed]
        exact answered_nothing (by simp [hsame]) rfl
      · obtain ⟨⟨body', hbody, hran⟩, hgone⟩ := hserved
        rw [hneed]
        refine ⟨rfl, .inr ⟨engineCall, rfl, ?_, fun hnone => congrArg some (hgone hnone)⟩⟩
        simpa only [hbody, Option.getD_some] using hran

theorem iter_met (hclean : s.clean) (opts : Option RegolithIterOptions) (out err : OutParam) :
    Meets ((SessionCall.iter opts out err).need s) s (s.step (.iter opts out err)).2 := by
  have hbody : (s.step (.iter opts out err)).2.body = s.body := by
    simp only [step, regolith_txn_iter]
    split
    · rfl
    · exact over_txn_keeps hclean (bounds_from opts)
  refine meets_of_same hclean hbody rfl (.inr ?_)
  simp only [SessionCall.need]
  split <;> exact ⟨rfl, rfl⟩

theorem step_met (hclean : s.clean) (call : SessionCall) :
    Meets (call.need s) s (s.step call).2 := by
  cases call with
  | get_borrowed key val val_len value_handle err =>
    exact (get_borrowed_answered hclean key val val_len value_handle err).met hclean
  | has key found err => exact (has_answered hclean key found err).met hclean
  | set key value err => exact (set_answered hclean key value err).met hclean
  | delete key err => exact (delete_answered hclean key err).met hclean
  | on index call => exact (on_answered hclean index call).met hclean
  | iter opts out err => exact iter_met hclean opts out err
  | discard err =>
    refine meets_of_resolved hclean (fun txn hvalue => ?_) (fun hvalue => ?_)
    · simp only [step, TxnInner.discard_live ⟨hclean, hvalue⟩]
      exact ⟨trivial, rfl⟩
    · simp [step, TxnInner.discard_resolved hclean hvalue]
  | commit err =>
    refine meets_of_resolved hclean (fun txn hvalue => ?_) (fun hvalue => ?_)
    · simp only [step, TxnInner.commit_live ⟨hclean, hvalue⟩]
      exact ⟨trivial, rfl⟩
    · simp [step, TxnInner.commit_resolved hclean hvalue]
  | free err =>
    refine meets_of_resolved hclean (fun txn hvalue => ?_) (fun hvalue => ?_)
    · simp only [step, TxnInner.free_live ⟨hclean, hvalue⟩]
      exact ⟨trivial, rfl⟩
    · simp [step, TxnInner.free_resolved hclean hvalue]

theorem step_gone (hclean : s.clean) (hgone : s.body.txn.value = none) {call : SessionCall}
    (huses : (call.need s).uses = true) : (s.step call).1 = some DISCARDED := by
  cases call with
  | get_borrowed key val val_len value_handle err =>
    exact (get_borrowed_answered hclean key val val_len value_handle err).gone hgone huses
  | has key found err => exact (has_answered hclean key found err).gone hgone huses
  | set key value err => exact (set_answered hclean key value err).gone hgone huses
  | delete key err => exact (delete_answered hclean key err).gone hgone huses
  | on index call => exact (on_answered hclean index call).gone hgone huses
  | iter opts out err =>
    cases out with
    | null => simp [SessionCall.need, Need.uses] at huses
    | writable => simp [step, regolith_txn_iter, over_txn_gone hclean hgone, Failure.code]
  | discard err => exact Bool.noConfusion huses
  | commit err => exact Bool.noConfusion huses
  | free err => exact Bool.noConfusion huses

end Step

end Session

end Regolith.Ffi
