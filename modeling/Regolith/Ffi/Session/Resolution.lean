import Mathlib.Data.List.Induction
import Regolith.Ffi.ListEngine
import Regolith.Ffi.Session.Theorems

-- What whole runs of calls come to: how often a transaction is resolved, and what a
-- panic leaves of it.
namespace Regolith.Ffi

def SessionCall.discards : SessionCall → Bool
  | .discard _ => true
  | _ => false

def SessionCall.resolves : SessionCall → Bool
  | .discard _ | .commit _ | .free _ => true
  | _ => false

namespace Session

section Needs

variable {C T S : Type} {s : Session C T S}

theorem iter_need_scans (it : RegolithIter (Source C T S)) (call : IterCall) :
    call.need it = .nothing ∨
      ∃ start end_ direction, call.need it = .run (.scan_stream_in start end_ direction) := by
  rcases hit : it.source with cursor | ⟨txn, stream, current⟩
  · exact .inl (by cases call <;> simp [IterCall.need, hit])
  · cases call with
    | next valid err =>
      simp only [IterCall.need, hit]
      split
      · exact .inr ⟨_, _, _, rfl⟩
      · exact .inl rfl
    | next_batch max_entries out out_len out_count err =>
      simp only [IterCall.need, hit]
      split
      · exact .inl rfl
      · split
        · exact .inl rfl
        · exact .inr ⟨_, _, _, rfl⟩
    | seek raw valid err =>
      simp only [IterCall.need, hit]
      split
      · exact .inl rfl
      · split <;> exact .inr ⟨_, _, _, rfl⟩
    | _ => exact .inl (by simp [IterCall.need, hit])

-- A call that resolves nothing asks for nothing, for a transaction to be there, or for a
-- call of the engine that resolves nothing either and, on a read-only handle, writes nothing.
theorem need_shape (s : Session C T S) {call : SessionCall} (hkeeps : call.resolves = false) :
    call.need s = .nothing ∨
    (∃ engineCall, call.need s = .run engineCall ∧ engineCall.resolves = false ∧
      (s.body.readonly = true → engineCall.writes = false)) ∨
    call.need s = .alive ∧ ∃ opts err, call = .iter opts .writable err := by
  cases call with
  | get_borrowed key val val_len value_handle err =>
    simp only [SessionCall.need]
    split
    · exact .inl rfl
    · exact .inr (.inl ⟨_, rfl, rfl, fun _ => rfl⟩)
  | has key found err =>
    simp only [SessionCall.need]
    split
    · exact .inl rfl
    · exact .inr (.inl ⟨_, rfl, rfl, fun _ => rfl⟩)
  | set key value err =>
    simp only [SessionCall.need]
    split
    · exact .inl rfl
    · split
      · exact .inr (.inl ⟨_, rfl, rfl, fun hreadonly => absurd hreadonly ‹_›⟩)
      · exact .inl rfl
  | delete key err =>
    simp only [SessionCall.need]
    split
    · exact .inl rfl
    · split
      · exact .inl rfl
      · exact .inr (.inl ⟨_, rfl, rfl, fun hreadonly => absurd hreadonly ‹_›⟩)
  | iter opts out err =>
    cases out with
    | null => exact .inl rfl
    | writable => exact .inr (.inr ⟨rfl, opts, err, rfl⟩)
  | on index call =>
    cases hit : s.iters[index]? with
    | none => exact .inl (by simp only [SessionCall.need, hit])
    | some it =>
      simp only [SessionCall.need, hit]
      rcases iter_need_scans it call with hneed | ⟨start, end_, direction, hneed⟩
      · exact .inl hneed
      · exact .inr (.inl ⟨_, hneed, rfl, fun _ => rfl⟩)
  | discard err => exact Bool.noConfusion hkeeps
  | commit err => exact Bool.noConfusion hkeeps
  | free err => exact Bool.noConfusion hkeeps

theorem need_of_keeps (s : Session C T S) {call : SessionCall} (hkeeps : call.resolves = false) :
    (call.need s).resolves = false ∧ ∀ engineCall ∈ (call.need s).calls,
      engineCall.resolves = false ∧ (s.body.readonly = true → engineCall.writes = false) := by
  rcases need_shape s hkeeps with hneed | ⟨engineCall, hneed, hfree⟩ | ⟨hneed, -⟩
  · simp [hneed, Need.resolves, Need.calls]
  · simpa [hneed, Need.resolves, Need.calls] using hfree
  · simp [hneed, Need.resolves, Need.calls]

theorem need_of_resolves (s : Session C T S) {call : SessionCall} (hresolves : call.resolves = true) :
    call.need s = .resolve .rollback ∧ (∀ err, call ≠ .commit err) ∨
      call.need s = .resolve .commit ∧ ∃ err, call = .commit err := by
  cases call with
  | discard err => exact .inl ⟨rfl, fun _ => SessionCall.noConfusion⟩
  | free err => exact .inl ⟨rfl, fun _ => SessionCall.noConfusion⟩
  | commit err => exact .inr ⟨rfl, err, rfl⟩
  | _ => exact Bool.noConfusion hresolves

theorem keeps_of_uses {call : SessionCall} (huses : (call.need s).uses = true) :
    call.resolves = false := by
  cases hresolves : call.resolves with
  | false => rfl
  | true =>
    rcases need_of_resolves s hresolves with ⟨hneed, -⟩ | ⟨hneed, -⟩ <;>
      simp [hneed, Need.uses] at huses

end Needs

section Run

variable {C T S : Type} [OwnedSnapshotIter C] [TxnScanStream S] [OwnedTransaction T S]
  {s : Session C (Logged T) S} {txn : T} {readonly : Bool} {calls : List SessionCall}

theorem run_snoc (s : Session C T S) (calls : List SessionCall)
    (call : SessionCall) : s.run (calls ++ [call]) = ((s.run calls).step call).2 := by
  simp [run, List.foldl_append]

-- What the calls made so far, from the beginning of a transaction, have led to.
structure Recorded (txn : T) (readonly : Bool) (calls : List SessionCall)
    (s : Session C (Logged T) S) : Prop where
  clean : s.clean
  mode : s.body.readonly = readonly
  live : s.live = calls.all (!·.resolves)
  count : s.log.countP (·.resolves) = if s.live then 0 else 1
  committed : .commit ∈ s.log ↔ ∃ before err after,
    calls = before ++ .commit err :: after ∧ ∀ call ∈ before, call.resolves = false
  unwritten : readonly = true → ∀ call ∈ s.log, call.writes = false
  value : ∀ owned, s.body.txn.value = some owned → owned = s.log.foldl Logged.after ⟨txn, []⟩

omit [OwnedSnapshotIter C] [TxnScanStream S] in
theorem recorded_begun : Recorded txn readonly [] (begun C S ⟨txn, []⟩ readonly) where
  clean := rfl
  mode := rfl
  live := rfl
  count := rfl
  committed := by simp [begun, log, TxnInner.new, RwLock.new]
  unwritten := by simp [begun, log, TxnInner.new, RwLock.new]
  value := by simp [begun, log, TxnInner.new, RwLock.new]

-- A commit that comes first is found before a further call is made, or is that call.
theorem committed_snoc {call : SessionCall} :
    (∃ before err after, calls ++ [call] = before ++ .commit err :: after ∧
      ∀ call ∈ before, call.resolves = false) ↔
    (∃ before err after, calls = before ++ .commit err :: after ∧
      ∀ call ∈ before, call.resolves = false) ∨
    (∃ err, call = .commit err) ∧ calls.all (!·.resolves) = true := by
  constructor
  · rintro ⟨before, err, after, hsplit, hbefore⟩
    rcases List.eq_nil_or_concat after with rfl | ⟨after, last, rfl⟩
    · obtain ⟨rfl, hcall⟩ := List.append_inj' hsplit rfl
      exact .inr ⟨⟨err, by simpa using hcall⟩, by simpa using hbefore⟩
    · refine .inl ⟨before, err, after, ?_, hbefore⟩
      rw [List.concat_eq_append, ← List.cons_append, ← List.append_assoc] at hsplit
      exact (List.append_inj' hsplit rfl).1
  · rintro (⟨before, err, after, rfl, hbefore⟩ | ⟨⟨err, rfl⟩, hall⟩)
    · exact ⟨before, err, after ++ [call], by simp, hbefore⟩
    · exact ⟨calls, err, [], rfl, by simpa using hall⟩

-- Once the transaction is resolved nothing changes.
theorem Recorded.step_gone (h : Recorded txn readonly calls s) (hs : s.live = false)
    (call : SessionCall) : Recorded txn readonly (calls ++ [call]) (s.step call).2 := by
  have hmet := step_met h.clean call
  have hlog : (s.step call).2.log = s.log := by simpa [hs] using hmet.log
  have hdead : (s.step call).2.live = false := by simp [hmet.live, hs]
  have hall : calls.all (!·.resolves) = false := h.live.symm.trans hs
  refine ⟨hmet.clean, hmet.readonly.trans h.mode, ?_, ?_, ?_, ?_, ?_⟩
  · rw [hdead, List.all_append, hall, Bool.false_and]
  · simpa [hlog, hdead, hs] using h.count
  · rw [hlog, h.committed, committed_snoc]
    simp [hall]
  · rw [hlog]
    exact h.unwritten
  · intro owned howned
    simp [Session.live, howned] at hdead

theorem Recorded.step_keeps (h : Recorded txn readonly calls s) (hs : s.live = true)
    {call : SessionCall} (hkeeps : call.resolves = false) :
    Recorded txn readonly (calls ++ [call]) (s.step call).2 := by
  have hmet := step_met h.clean call
  obtain ⟨hneed, hcalls⟩ := need_of_keeps s hkeeps
  have hlog : (s.step call).2.log = s.log ++ (call.need s).calls := by simpa [hs] using hmet.log
  have hstays : (s.step call).2.live = true := by simp [hmet.live, hs, hneed]
  have hall : calls.all (!·.resolves) = true := h.live.symm.trans hs
  refine ⟨hmet.clean, hmet.readonly.trans h.mode, ?_, ?_, ?_, ?_, ?_⟩
  · simp [hstays, hall, hkeeps]
  · have hcount : s.log.countP (·.resolves) = 0 := by simpa [hs] using h.count
    rw [hlog, List.countP_append, hcount, hstays, if_pos rfl, Nat.zero_add]
    exact List.countP_eq_zero.mpr fun c hc => by simp [(hcalls c hc).1]
  · rw [hlog, committed_snoc, List.mem_append]
    refine or_congr h.committed (iff_of_false (fun hmem => ?_) ?_)
    · exact absurd (hcalls _ hmem).1 (by simp [EngineCall.resolves])
    · rintro ⟨⟨err, rfl⟩, -⟩
      exact Bool.noConfusion hkeeps
  · rw [hlog]
    intro hflag c hc
    rcases List.mem_append.mp hc with hc | hc
    · exact h.unwritten hflag c hc
    · exact (hcalls c hc).2 (h.mode.trans hflag)
  · intro owned howned
    rw [hmet.value, hneed] at howned
    simp only [Bool.false_eq_true, if_false, Option.map_eq_some_iff] at howned
    obtain ⟨before, hbefore, rfl⟩ := howned
    rw [hlog, List.foldl_append, ← h.value before hbefore]

theorem Recorded.step_resolves (h : Recorded txn readonly calls s) (hs : s.live = true)
    {call : SessionCall} (hresolves : call.resolves = true) :
    Recorded txn readonly (calls ++ [call]) (s.step call).2 := by
  have hmet := step_met h.clean call
  have hall : calls.all (!·.resolves) = true := h.live.symm.trans hs
  obtain ⟨engineCall, hneed, hends, hwrites, hcommit⟩ : ∃ engineCall,
      call.need s = .resolve engineCall ∧ engineCall.resolves = true ∧ engineCall.writes = false ∧
      (engineCall = .commit ↔ ∃ err, call = .commit err) := by
    rcases need_of_resolves s hresolves with ⟨hneed, hother⟩ | ⟨hneed, hcommit⟩
    · exact ⟨_, hneed, rfl, rfl, iff_of_false EngineCall.noConfusion (not_exists.mpr hother)⟩
    · exact ⟨_, hneed, rfl, rfl, iff_of_true rfl hcommit⟩
  have hlog : (s.step call).2.log = s.log ++ [engineCall] := by
    simpa [hs, hneed, Need.calls] using hmet.log
  have hdead : (s.step call).2.live = false := by simp [hmet.live, hneed, Need.resolves]
  refine ⟨hmet.clean, hmet.readonly.trans h.mode, ?_, ?_, ?_, ?_, ?_⟩
  · simp [hdead, hresolves]
  · have hcount : s.log.countP (·.resolves) = 0 := by simpa [hs] using h.count
    simp [hlog, hcount, hdead, hends]
  · rw [hlog, committed_snoc, List.mem_append, List.mem_singleton]
    refine or_congr h.committed ?_
    rw [eq_comm, hcommit]
    exact (and_iff_left hall).symm
  · rw [hlog]
    intro hflag c hc
    rcases List.mem_append.mp hc with hc | hc
    · exact h.unwritten hflag c hc
    · rw [List.mem_singleton.mp hc]
      exact hwrites
  · intro owned howned
    simp [Session.live, howned] at hdead

theorem Recorded.step (h : Recorded txn readonly calls s) (call : SessionCall) :
    Recorded txn readonly (calls ++ [call]) (s.step call).2 := by
  cases hs : s.live with
  | false => exact h.step_gone hs call
  | true =>
    cases hresolves : call.resolves with
    | false => exact h.step_keeps hs hresolves
    | true => exact h.step_resolves hs hresolves

theorem recorded_run (txn : T) (readonly : Bool) (calls : List SessionCall) :
    Recorded txn readonly calls ((begun C S ⟨txn, []⟩ readonly).run calls) := by
  induction calls using List.reverseRecOn with
  | nil => exact recorded_begun
  | append_singleton calls call ih =>
    rw [run_snoc]
    exact ih.step call

-- Reads leave the buffered writes alone.
structure ReadsKeep {W : Type} (writeSet : T → W) : Prop where
  get_slice : ∀ t key, writeSet (OwnedTransaction.get_slice t key).2 = writeSet t
  scan_stream_in : ∀ t start end_ direction,
    writeSet (OwnedTransaction.scan_stream_in t start end_ direction).2 = writeSet t

omit [TxnScanStream S] in
theorem ReadsKeep.replay {W : Type} {writeSet : T → W} (keeps : ReadsKeep writeSet)
    (txn : Logged T) {log : List EngineCall}
    (hlog : ∀ call ∈ log, call.writes = false ∧ call.resolves = false) :
    writeSet (log.foldl Logged.after txn).txn = writeSet txn.txn := by
  induction log generalizing txn with
  | nil => rfl
  | cons call log ih =>
    obtain ⟨⟨hwrites, hresolves⟩, hrest⟩ := List.forall_mem_cons.mp hlog
    rw [List.foldl_cons, ih (txn.after call) hrest]
    cases call with
    | get_slice key => exact keeps.get_slice txn.txn key
    | scan_stream_in start end_ direction => exact keeps.scan_stream_in txn.txn start end_ direction
    | put key value => exact Bool.noConfusion hwrites
    | delete key => exact Bool.noConfusion hwrites
    | commit => exact Bool.noConfusion hresolves
    | rollback => exact Bool.noConfusion hresolves

-- With proper calls, no discard before a commit means nothing before it that resolves.
theorem proper_before_commit {before after : List SessionCall} {err : OutParam}
    (hproper : Proper (before ++ .commit err :: after))
    (hbefore : ∀ call ∈ before, call.discards = false) :
    ∀ call ∈ before, call.resolves = false := by
  intro call hcall
  have hfrees : call.frees = true → SessionCall.on_handle (.commit err) = false :=
    (List.pairwise_append.mp hproper).2.2 call hcall _ List.mem_cons_self
  have hdiscards := hbefore call hcall
  cases call <;> simp_all [SessionCall.resolves, SessionCall.discards, SessionCall.frees,
    SessionCall.on_handle]

-- A transaction is resolved once, however the calls on its handle and on the iterators
-- over it follow each other.
theorem resolved_once (txn : T) (readonly : Bool) {calls : List SessionCall}
    (hproper : Proper calls) :
    let s := (begun C S ⟨txn, []⟩ readonly).run calls
    let resolutions := s.log.countP (·.resolves)
    resolutions ≤ 1 ∧
    ((∃ call ∈ calls, call.frees = true) → resolutions = 1) ∧
    (.commit ∈ s.log ↔ ∃ before err after, calls = before ++ .commit err :: after ∧
      ∀ call ∈ before, call.discards = false) ∧
    (resolutions = 1 → ∀ call,
      (s.step call).2.log = s.log ∧
      ((call.need s).uses = true → (s.step call).1 = some DISCARDED) ∧
      (call.discards = true → (s.step call).1 = some OK)) ∧
    (readonly = true →
      (∀ call ∈ s.log, call.writes = false) ∧
      ∀ {W : Type} (writeSet : T → W), ReadsKeep writeSet →
        ∀ owned, s.body.txn.value = some owned → writeSet owned.txn = writeSet txn) := by
  intro s resolutions
  have h : Recorded txn readonly calls s := recorded_run txn readonly calls
  have hcount : resolutions = if s.live then 0 else 1 := h.count
  refine ⟨?_, ?_, ?_, ?_, ?_⟩
  · rw [hcount]
    split <;> omega
  · rintro ⟨call, hcall, hfrees⟩
    have hdead : s.live = false := by
      rw [h.live, List.all_eq_false]
      refine ⟨call, hcall, ?_⟩
      cases call <;> simp_all [SessionCall.frees, SessionCall.resolves]
    simp [hcount, hdead]
  · rw [h.committed]
    constructor
    · rintro ⟨before, err, after, hcalls, hbefore⟩
      refine ⟨before, err, after, hcalls, fun call hcall => ?_⟩
      have hkeeps := hbefore call hcall
      cases call <;> simp_all [SessionCall.resolves, SessionCall.discards]
    · rintro ⟨before, err, after, hcalls, hbefore⟩
      exact ⟨before, err, after, hcalls, proper_before_commit (hcalls ▸ hproper) hbefore⟩
  · intro hresolved call
    have hdead : s.live = false := by
      by_contra hlive
      simp_all
    have hgone : s.body.txn.value = none := by simpa [live] using hdead
    refine ⟨?_, step_gone h.clean hgone, fun hdiscards => ?_⟩
    · simpa [hdead] using (step_met h.clean call).log
    · cases call with
      | discard err => simp [step, TxnInner.discard_resolved h.clean hgone]
      | _ => exact Bool.noConfusion hdiscards
  · intro hreadonly
    refine ⟨h.unwritten hreadonly, fun writeSet keeps owned howned => ?_⟩
    have hlive : s.live = true := by simp [live, howned]
    have hnone : s.log.countP (·.resolves) = 0 := by simpa [hlive] using h.count
    rw [h.value owned howned]
    refine keeps.replay ⟨txn, []⟩ fun call hcall => ⟨h.unwritten hreadonly call hcall, ?_⟩
    simpa using List.countP_eq_zero.mp hnone call hcall

-- A call in which the engine panicked while it ran for it.
def Panicked (s : Session C (Logged T) S) (call : SessionCall) : Prop :=
  (∃ engineCall, call.need s = .run engineCall) ∧ (s.step call).1 = some PANIC

-- A call that runs against the transaction or commits it.
def Wants (s : Session C (Logged T) S) (call : SessionCall) : Prop :=
  (call.need s).uses = true ∨ ∃ err, call = .commit err

-- What the text of `unusable` promises of the calls after a panic.
def BarredByPanic (s : Session C (Logged T) S) (calls : List SessionCall) : Prop :=
  ∀ before bad between later after, calls = before ++ bad :: between ++ later :: after →
    Panicked (s.run before) bad → Wants (s.run (before ++ bad :: between)) later →
      ((s.run (before ++ bad :: between)).step later).1 = some OTHER ∧
        ((s.run (before ++ bad :: between)).step later).2.log =
          (s.run (before ++ bad :: between)).log

-- A call that wants the transaction either gets to it or finds it resolved.
theorem wants_unbarred (hclean : s.clean) {call : SessionCall} (hwants : Wants s call) :
    ¬((s.step call).1 = some OTHER ∧ (s.step call).2.log = s.log) := by
  rintro ⟨hstatus, hlog⟩
  cases hvalue : s.body.txn.value with
  | none =>
    have hdiscarded : (s.step call).1 = some DISCARDED := by
      rcases hwants with huses | ⟨err, rfl⟩
      · exact step_gone hclean hvalue huses
      · simp [step, TxnInner.commit_resolved hclean hvalue, Failure.code]
    rw [hdiscarded] at hstatus
    exact absurd hstatus (by decide)
  | some txn =>
    have hlive : s.live = true := by simp [live, hvalue]
    rw [(step_met hclean call).log, if_pos hlive, List.append_right_eq_self] at hlog
    rcases hwants with huses | ⟨err, rfl⟩
    · rcases need_shape s (keeps_of_uses huses) with
        hneed | ⟨engineCall, hneed, -⟩ | ⟨-, opts, err, rfl⟩
      · simp [hneed, Need.uses] at huses
      · simp [hneed, Need.calls] at hlog
      · have hok : (s.step (.iter opts .writable err)).1 = some OK := by
          simp [step, regolith_txn_iter, RegolithIter.over_txn,
            TxnInner.with_txn_usable ⟨hclean, hvalue⟩, Except.mapError]
        rw [hok] at hstatus
        exact absurd hstatus (by decide)
    · simp [SessionCall.need, Need.calls] at hlog

-- However a call ended, a panic included, the transaction stays what it was to later calls.
theorem barred_iff (txn : T) (readonly : Bool) (calls : List SessionCall) :
    BarredByPanic (begun C S ⟨txn, []⟩ readonly) calls ↔
      ∀ before bad between later after, calls = before ++ bad :: between ++ later :: after →
        Panicked ((begun C S ⟨txn, []⟩ readonly).run before) bad →
          ¬Wants ((begun C S ⟨txn, []⟩ readonly).run (before ++ bad :: between)) later := by
  constructor
  · intro h before bad between later after hcalls hpanicked hwants
    exact wants_unbarred (recorded_run txn readonly (before ++ bad :: between)).clean hwants
      (h before bad between later after hcalls hpanicked hwants)
  · intro h before bad between later after hcalls hpanicked hwants
    exact absurd hwants (h before bad between later after hcalls hpanicked)

end Run

-- A put that panics half way is committed by the next call.
theorem barred_not_commit :
    let bad : Bytes → Bool := (· == [66])
    let txn : ListTxn bad := ⟨.ofPairs [([65], [1]), ([66], [2])]⟩
    ¬BarredByPanic (begun (ListCursor bad) (ListStream bad) ⟨txn, []⟩ false)
      [.set ⟨some [66], 1⟩ ⟨some [3], 1⟩ .null, .commit .null] := by
  intro bad txn h
  have hpanicked : Panicked (begun (ListCursor bad) (ListStream bad) ⟨txn, []⟩ false)
      (.set ⟨some [66], 1⟩ ⟨some [3], 1⟩ .null) := ⟨⟨_, rfl⟩, rfl⟩
  obtain ⟨hstatus, -⟩ := h [] _ [] (.commit .null) [] rfl hpanicked (.inr ⟨_, rfl⟩)
  exact absurd hstatus (by decide)

theorem resolved_once_discard :
    let calls : List SessionCall :=
      [.set ⟨some [1], 1⟩ ⟨some [7], 1⟩ .null, .iter none .writable .null,
        .on 0 (.next .writable .null), .discard .null, .discard .null, .commit .null,
        .on 0 (.seek ⟨some [1], 1⟩ .writable .null)]
    let txn : ListTxn noBad := ⟨.ofPairs [([1], [10]), ([2], [20])]⟩
    let s := (begun (ListCursor noBad) (ListStream noBad) ⟨txn, []⟩ false).run calls
    let resolutions := s.log.countP (·.resolves)
    resolutions ≤ 1 ∧
    ((∃ call ∈ calls, call.frees = true) → resolutions = 1) ∧
    (.commit ∈ s.log ↔ ∃ before err after, calls = before ++ .commit err :: after ∧
      ∀ call ∈ before, call.discards = false) ∧
    (resolutions = 1 → ∀ call,
      (s.step call).2.log = s.log ∧
      ((call.need s).uses = true → (s.step call).1 = some DISCARDED) ∧
      (call.discards = true → (s.step call).1 = some OK)) ∧
    (false = true →
      (∀ call ∈ s.log, call.writes = false) ∧
      ∀ {W : Type} (writeSet : ListTxn noBad → W), ReadsKeep writeSet →
        ∀ owned, s.body.txn.value = some owned → writeSet owned.txn = writeSet txn) :=
  resolved_once _ _ (by decide)

end Session

end Regolith.Ffi
