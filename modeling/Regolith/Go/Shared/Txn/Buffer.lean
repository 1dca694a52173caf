import Regolith.Ffi.Txn.Theorems
import Regolith.Go.Iter.Faults
import Regolith.Go.Shared.Txn.Linear
import Regolith.Go.Write.Copy

-- What a transaction is for: goroutines share a map, which their own writes change, until one
-- of them resolves it.
namespace Regolith.Go.Shared.Txn

open Ffi Goroutine

section Engine

variable {T S : Type} [OwnedTransaction T S]

-- The engine's part of a write.
def buffer (t : T) : RawOp → Except Payload (Except TxnOpError Unit) × T
  | .Set key value => OwnedTransaction.put t key value
  | .Delete key => OwnedTransaction.delete t key

-- A read finds what the transaction holds, and leaves it. A write is taken, or refused and
-- nothing comes of it; the engine may leave anything where it panics in one.
structure BufferLaws (view : T → StoreMap) : Prop where
  found : ∀ t key slice, (OwnedTransaction.get_slice t key).1 = .ok (.ok slice) →
    slice = view t key
  read : ∀ t key, view (OwnedTransaction.get_slice t key).2 = view t
  taken : ∀ t op, (buffer t op).1 = .ok (.ok ()) → view (buffer t op).2 = applyOp (view t) op
  refused : ∀ t op error, (buffer t op).1 = .ok (.error error) → view (buffer t op).2 = view t

end Engine

section Buffer

inductive Fate where
  | unresolved
  | committed
  | dropped
  deriving DecidableEq

-- Its map is what the engine's transaction shows.
structure Buffer (T : Type) where
  readOnly : Bool
  txn : T
  fate : Fate

def Method.op : Method → Option RawOp
  | .Set key value => some (.Set key value)
  | .Delete key => some (.Delete key)
  | _ => none

-- How a call of the engine fails.
def failing {R : Type} : Except Payload (Except TxnOpError R) → Option Raised
  | .ok (.ok _) => none
  | .ok (.error error) => some (.failure (.of_op_error error))
  | .error payload => some (.panic payload)

-- The engine's part of a method: whether it fails, and what it leaves of the transaction.
def Method.engine {T S : Type} [OwnedTransaction T S] (t : T) : Method → Option Raised × T
  | .Get key | .Has key =>
      (failing (OwnedTransaction.get_slice t key).1, (OwnedTransaction.get_slice t key).2)
  | .Set key value => (failing (buffer t (.Set key value)).1, (buffer t (.Set key value)).2)
  | .Delete key => (failing (buffer t (.Delete key)).1, (buffer t (.Delete key)).2)
  | .NewIter _ | .Discard => (none, t)
  | .Commit =>
      (failing ((OwnedTransaction.commit t).1.map (·.mapError .transaction)),
        (OwnedTransaction.commit t).2)

-- The sentinels that an error of the engine never is.
def reserved : List Sentinel := [.ErrNotFound, .ErrReadOnly, .ErrDiscarded]

-- What a method whose engine call fails leaves of the map: all of it, unless a write panicked.
def Method.Spares (m : Method) (err : GoError) (kv kv' : StoreMap) : Prop :=
  kv' = kv ∨ m.op.isSome ∧ err.sentinel = .ErrPanic

-- An error of the engine, as `statusToErr` has it.
structure Fails (raised : Raised) (err : GoError) : Prop where
  own : err.sentinel ∉ reserved
  reported : reported raised = some err

variable {T S σ : Type} [OwnedTransaction T S]

-- By whether the database is closed.
inductive Does (view : T → StoreMap) : Bool → Buffer T → Method → Answer σ → Buffer T → Prop where
  | closed {b m} (hm : m ≠ .Discard) (hfate : m = .Commit → b.fate = .unresolved) :
      Does view true b m (refuse .ErrClosed) b
  | resolved {closed b m} (hm : m ≠ .Discard) (hopen : m ≠ .Commit → closed = false)
      (hfate : b.fate ≠ .unresolved) : Does view closed b m (refuse .ErrDiscarded) b
  | found {readOnly t t' key value} (hengine : (Method.Get key).engine t = (none, t'))
      (hkept : view t' = view t) (h : view t key = some value) :
      Does view false ⟨readOnly, t, .unresolved⟩ (.Get key) (copied value)
        ⟨readOnly, t', .unresolved⟩
  | missing {readOnly t t' key} (hengine : (Method.Get key).engine t = (none, t'))
      (hkept : view t' = view t) (h : view t key = none) :
      Does view false ⟨readOnly, t, .unresolved⟩ (.Get key) (refuse .ErrNotFound)
        ⟨readOnly, t', .unresolved⟩
  | has {readOnly t t' key} (hengine : (Method.Has key).engine t = (none, t'))
      (hkept : view t' = view t) :
      Does view false ⟨readOnly, t, .unresolved⟩ (.Has key)
        (.ok (.ok (.found (view t key).isSome))) ⟨readOnly, t', .unresolved⟩
  | wrote {t t' m op} (hm : m.op = some op) (hengine : m.engine t = (none, t'))
      (h : view t' = applyOp (view t) op) :
      Does view false ⟨false, t, .unresolved⟩ m (.ok (.ok .nothing)) ⟨false, t', .unresolved⟩
  | read_only {t m} (hm : m.op.isSome) :
      Does view false ⟨true, t, .unresolved⟩ m (refuse .ErrReadOnly) ⟨true, t, .unresolved⟩
  | iter {readOnly t opts} {it : Iter σ} (hopened : it.Opened opts) :
      Does view false ⟨readOnly, t, .unresolved⟩ (.NewIter opts) (.ok (.ok (.iter it)))
        ⟨readOnly, t, .unresolved⟩
  | failed {readOnly t t' m raised} {err : GoError} (hengine : m.engine t = (some raised, t'))
      (hfails : Fails raised err) (hm : m ≠ .Commit) (hwritable : m.op.isSome → readOnly = false)
      (hspares : m.Spares err (view t) (view t')) :
      Does view false ⟨readOnly, t, .unresolved⟩ m (.ok (.error err)) ⟨readOnly, t', .unresolved⟩
  | committed {readOnly t} (hengine : (Method.Commit.engine t).1 = none) :
      Does view false ⟨readOnly, t, .unresolved⟩ .Commit (.ok (.ok .nothing))
        ⟨readOnly, t, .committed⟩
  | lost {readOnly t raised} {err : GoError} (hengine : (Method.Commit.engine t).1 = some raised)
      (hfails : Fails raised err) :
      Does view false ⟨readOnly, t, .unresolved⟩ .Commit (.ok (.error err)) ⟨readOnly, t, .dropped⟩
  | discarded {closed readOnly t} :
      Does view closed ⟨readOnly, t, .unresolved⟩ .Discard (.ok (.ok .nothing))
        ⟨readOnly, t, .dropped⟩
  | discarded_again {closed b} (hfate : b.fate ≠ .unresolved) :
      Does view closed b .Discard (.ok (.ok .nothing)) b

-- A transaction that has begun, as its callers see it.
def buffered (view : T → StoreMap) (readOnly : Bool) (txn : T) :
    Linear.Object Method (Answer σ) Empty Flag :=
  ⟨Buffer T, ⟨readOnly, txn, .unresolved⟩,
    fun b call now answer b' => Does view (now .closed) b call.method answer b'⟩

end Buffer

section Failures

theorem withDetail_sentinel (sentinel : Sentinel) (message : String) :
    (withDetail sentinel message).sentinel = sentinel := by
  unfold withDetail
  split_ifs <;> rfl

theorem fails_op_error (error : TxnOpError) : ∃ err, Fails (.failure (.of_op_error error)) err := by
  rcases error with (_ | reason | display) | (_ | _ | display | display | display)
  · exact ⟨.bare .ErrClosed, by decide, rfl⟩
  · exact ⟨_, by rw [withDetail_sentinel]; decide, rfl⟩
  · exact ⟨_, by rw [withDetail_sentinel]; decide, rfl⟩
  · exact ⟨.bare .ErrConflict, by decide, rfl⟩
  · exact ⟨.bare .ErrConflict, by decide, rfl⟩
  · exact ⟨_, by rw [withDetail_sentinel]; decide, rfl⟩
  · exact ⟨_, by rw [withDetail_sentinel]; decide, rfl⟩
  · exact ⟨_, by rw [withDetail_sentinel]; decide, rfl⟩

theorem fails_panic (payload : Payload) :
    ∃ err, Fails (.panic payload) err ∧ err.sentinel = .ErrPanic :=
  ⟨_, ⟨by rw [withDetail_sentinel]; decide, rfl⟩, withDetail_sentinel _ _⟩

theorem Fails.status {α : Type} {raised : Raised} {err : GoError} (h : Fails raised err) :
    statusToErr (guard .writable (.error raised : Except Raised α)).status
      (guard .writable (.error raised : Except Raised α)).err = some err := by
  cases raised <;> exact h.reported

theorem Fails.copied {σ : Type} {raised : Raised} {err : GoError} (h : Fails raised err) :
    (copyBorrowed (guard .writable (.error raised)) : Answer σ) = .ok (.error err) := by
  simp only [copyBorrowed, h.status]

theorem Fails.checked {σ α : Type} {raised : Raised} {err : GoError} (h : Fails raised err)
    (value : Option α → Value σ) :
    checked (guard .writable (.error raised)) value = .ok (.error err) := by
  simp only [Shared.checked, h.status]

-- How an operation of the transaction ends: with a result, or with an error that is no
-- panic, or in a panic.
theorem flatten_cases {R : Type} (r : Except Payload (Except TxnOpError R)) :
    (∃ result, r = .ok (.ok result) ∧ failing r = none ∧
      flatten (r.mapError .panic) = .ok result) ∨
      ∃ raised err, failing r = some raised ∧ flatten (r.mapError .panic) = .error raised ∧
        Fails raised err ∧ ((∃ error, r = .ok (.error error)) ∨ err.sentinel = .ErrPanic) := by
  match r with
  | .ok (.ok result) => exact .inl ⟨result, rfl, rfl, rfl⟩
  | .ok (.error error) =>
    obtain ⟨err, herr⟩ := fails_op_error error
    exact .inr ⟨_, err, rfl, rfl, herr, .inl ⟨error, rfl⟩⟩
  | .error payload =>
    obtain ⟨err, herr, hpanic⟩ := fails_panic payload
    exact .inr ⟨_, err, rfl, rfl, herr, .inr hpanic⟩

end Failures

section Refinement

variable {C T S : Type} [OwnedTransaction T S] {view : T → StoreMap} {x : Sequential T}
  {b : Buffer T} {m : Method} {t : T} {closed : Bool}

-- A transaction that one goroutine uses, and what it is to its callers.
structure Holds (x : Sequential T) (b : Buffer T) : Prop where
  clean : x.handle.body.txn.poisoned = false
  readOnly : x.handle.body.readonly = b.readOnly
  resolved : x.resolved = true ↔ b.fate ≠ .unresolved
  live : b.fate = .unresolved → x.handle.body.txn.value = some b.txn

omit [OwnedTransaction T S] in
theorem holds_first (txn : T) (readOnly : Bool) :
    Holds ⟨⟨.new txn readOnly, none⟩, false⟩ ⟨readOnly, txn, .unresolved⟩ :=
  ⟨rfl, rfl, by simp, fun _ => rfl⟩

omit [OwnedTransaction T S] in
theorem Holds.unresolved (h : Holds x b) (hx : ¬x.resolved = true) : b.fate = .unresolved := by
  by_contra hne
  exact hx (h.resolved.mpr hne)

omit [OwnedTransaction T S] in
-- After a call that has left the engine's transaction as `t`.
theorem Holds.holding (h : Holds x b) (t : T) :
    Holds { x with handle := { x.handle with body := x.handle.body.holding (some t) } }
      { b with txn := t } :=
  ⟨h.clean, h.readOnly, h.resolved, fun _ => rfl⟩

-- A method that uses the handle.
theorem Holds.use (h : Holds x b) {call : FfiCall}
    {answer : call.Reply (Source C T S) → Answer (Source C T S)}
    (hm : m ≠ .Discard ∧ m ≠ .Commit)
    (hdoes : b.fate = .unresolved ∧ x.handle.body.Usable b.txn →
      ∃ b', Does view false b m (answer (call.run x.handle).1) b' ∧
        Holds { x with handle := (call.run (C := C) x.handle).2 } b') :
    ∃ b', Does view closed b m (x.use call closed answer).1 b' ∧
      Holds (x.use call closed answer).2 b' := by
  unfold Sequential.use
  cases closed with
  | true => exact ⟨b, .closed hm.1 fun heq => absurd heq hm.2, h⟩
  | false =>
    simp only [Bool.false_eq_true, if_false]
    split_ifs with hresolved
    · exact ⟨b, .resolved hm.1 (fun _ => rfl) (h.resolved.mp hresolved), h⟩
    · have hfate := h.unresolved hresolved
      exact hdoes ⟨hfate, ⟨h.clean, h.live hfate⟩⟩

theorem copyBorrowed_found {σ : Type} (value : Bytes) :
    (copyBorrowed (guard .writable (out_borrowed value .writable .writable .writable)) : Answer σ) =
      copied value :=
  copyBorrowed_ok rfl rfl

theorem get_does (laws : BufferLaws view) (h : Holds x b) (key : Bytes) :
    ∃ b', Does view closed b (.Get key) (x.run (C := C) closed (.Get key)).1 b' ∧
      Holds (x.run (C := C) closed (.Get key)).2 b' := by
  refine h.use ⟨nofun, nofun⟩ fun ⟨hfate, husable⟩ => ?_
  obtain ⟨readOnly, t, fate⟩ := b
  obtain rfl : fate = .unresolved := hfate
  have hkept := laws.read t key
  refine ⟨⟨readOnly, (OwnedTransaction.get_slice t key).2, .unresolved⟩, ?_, ?_⟩
  · simp only [FfiCall.run, regolith_txn_get_borrowed, in_bytes_bytePtr,
      TxnInner.with_txn_usable husable]
    rcases flatten_cases (OwnedTransaction.get_slice t key).1 with
      ⟨slice, hslice, hfailing, hresult⟩ | ⟨raised, err, hfailing, hresult, hfails, -⟩
    · have hengine : (Method.Get key).engine t = (none, (OwnedTransaction.get_slice t key).2) :=
        congrArg (·, _) hfailing
      have hview := laws.found t key slice hslice
      cases slice with
      | none =>
        simp only [hresult]
        exact .missing hengine hkept hview.symm
      | some value =>
        simp only [hresult, copyBorrowed_found]
        exact .found hengine hkept hview.symm
    · simp only [hresult, hfails.copied]
      exact .failed (congrArg (·, _) hfailing) hfails nofun nofun (.inl hkept)
  · simp only [FfiCall.run, regolith_txn_get_borrowed, in_bytes_bytePtr,
      TxnInner.with_txn_usable husable]
    exact h.holding _

theorem has_does (laws : BufferLaws view) (h : Holds x b) (key : Bytes) :
    ∃ b', Does view closed b (.Has key) (x.run (C := C) closed (.Has key)).1 b' ∧
      Holds (x.run (C := C) closed (.Has key)).2 b' := by
  refine h.use ⟨nofun, nofun⟩ fun ⟨hfate, husable⟩ => ?_
  obtain ⟨readOnly, t, fate⟩ := b
  obtain rfl : fate = .unresolved := hfate
  have hkept := laws.read t key
  refine ⟨⟨readOnly, (OwnedTransaction.get_slice t key).2, .unresolved⟩, ?_, ?_⟩
  · simp only [FfiCall.run, regolith_txn_has, in_bytes_bytePtr, TxnInner.with_txn_usable husable]
    rcases flatten_cases (OwnedTransaction.get_slice t key).1 with
      ⟨slice, hslice, hfailing, hresult⟩ | ⟨raised, err, hfailing, hresult, hfails, -⟩
    · rw [laws.found t key slice hslice] at hresult
      simp only [hresult, out_bool_writable]
      exact .has (congrArg (·, _) hfailing) hkept
    · simp only [hresult, hfails.checked]
      exact .failed (congrArg (·, _) hfailing) hfails nofun nofun (.inl hkept)
  · simp only [FfiCall.run, regolith_txn_has, in_bytes_bytePtr, TxnInner.with_txn_usable husable]
    exact h.holding _

-- The part that `regolith_txn_set` and `regolith_txn_delete` share.
def write (h : Handle T) (t : T) (op : RawOp) : Reply Unit × Handle T :=
  if h.body.readonly then (guard .writable (fail (.code READ_ONLY_TXN)), h)
  else
    (guard .writable (flatten ((buffer t op).1.mapError .panic)),
      { h with body := h.body.holding (some (buffer t op).2) })

theorem Method.engine_op {op : RawOp} (hm : m.op = some op) :
    m.engine t = (failing (buffer t op).1, (buffer t op).2) := by
  cases m <;> simp [Method.op] at hm <;> subst hm <;> rfl

theorem write_does (laws : BufferLaws view) {readOnly : Bool} {op : RawOp}
    (h : Holds x ⟨readOnly, t, .unresolved⟩) (hm : m.op = some op) :
    ∃ b', Does (σ := Source C T S) view false ⟨readOnly, t, .unresolved⟩ m
        (checked (write x.handle t op).1 fun _ => .nothing) b' ∧
      Holds { x with handle := (write x.handle t op).2 } b' := by
  have hreadonly : x.handle.body.readonly = readOnly := h.readOnly
  have hsome : m.op.isSome := by simp [hm]
  cases readOnly with
  | true =>
    refine ⟨⟨true, t, .unresolved⟩, ?_, ?_⟩
    · simp only [write, hreadonly, if_true]
      exact .read_only hsome
    · simp only [write, hreadonly, if_true]
      exact h
  | false =>
    refine ⟨⟨false, (buffer t op).2, .unresolved⟩, ?_, ?_⟩
    · simp only [write, hreadonly, Bool.false_eq_true, if_false]
      rcases flatten_cases (buffer t op).1 with
        ⟨⟨⟩, htaken, hfailing, hresult⟩ | ⟨raised, err, hfailing, hresult, hfails, hcause⟩
      · simp only [hresult]
        refine .wrote hm ?_ (laws.taken t op htaken)
        rw [Method.engine_op hm, hfailing]
      · simp only [hresult, hfails.checked]
        have hengine : m.engine t = (some raised, (buffer t op).2) := by
          rw [Method.engine_op hm, hfailing]
        refine .failed hengine hfails (fun heq => by simp [heq, Method.op] at hm) (fun _ => rfl) ?_
        rcases hcause with ⟨error, herror⟩ | hpanic
        · exact .inl (laws.refused t op error herror)
        · exact .inr ⟨hsome, hpanic⟩
    · simp only [write, hreadonly, Bool.false_eq_true, if_false]
      exact h.holding _

theorem set_does (laws : BufferLaws view) (h : Holds x b) (key value : Bytes) :
    ∃ b', Does view closed b (.Set key value) (x.run (C := C) closed (.Set key value)).1 b' ∧
      Holds (x.run (C := C) closed (.Set key value)).2 b' := by
  refine h.use ⟨nofun, nofun⟩ fun ⟨hfate, husable⟩ => ?_
  obtain ⟨readOnly, t, fate⟩ := b
  obtain rfl : fate = .unresolved := hfate
  have hrun : FfiCall.run (C := C) x.handle (.regolith_txn_set (bytePtr key) (bytePtr value)) =
      write x.handle t (.Set key value) := by
    simp only [FfiCall.run, regolith_txn_set, in_bytes_bytePtr, TxnInner.with_txn_usable husable,
      write]
    split <;> rfl
  rw [hrun]
  exact write_does laws h rfl

theorem delete_does (laws : BufferLaws view) (h : Holds x b) (key : Bytes) :
    ∃ b', Does view closed b (.Delete key) (x.run (C := C) closed (.Delete key)).1 b' ∧
      Holds (x.run (C := C) closed (.Delete key)).2 b' := by
  refine h.use ⟨nofun, nofun⟩ fun ⟨hfate, husable⟩ => ?_
  obtain ⟨readOnly, t, fate⟩ := b
  obtain rfl : fate = .unresolved := hfate
  have hrun : FfiCall.run (C := C) x.handle (.regolith_txn_delete (bytePtr key)) =
      write x.handle t (.Delete key) := by
    simp only [FfiCall.run, regolith_txn_delete, in_bytes_bytePtr, TxnInner.with_txn_usable husable,
      write]
    split <;> rfl
  rw [hrun]
  exact write_does laws h rfl

theorem iter_does (h : Holds x b) (opts : IterOptions) :
    ∃ b', Does view closed b (.NewIter opts) (x.run (C := C) closed (.NewIter opts)).1 b' ∧
      Holds (x.run (C := C) closed (.NewIter opts)).2 b' := by
  refine h.use ⟨nofun, nofun⟩ fun ⟨hfate, husable⟩ => ?_
  obtain ⟨readOnly, t, fate⟩ := b
  obtain rfl : fate = .unresolved := hfate
  have hrun : FfiCall.run (C := C) x.handle (.regolith_txn_iter (newIterOptions opts)) =
      (guard .writable (.ok (.from_source (.Txn (x.handle.body.holding (some t)) none none)
        opts.bounds)), { x.handle with body := x.handle.body.holding (some t) }) := by
    simp only [FfiCall.run, regolith_txn_iter, reduceCtorEq, if_false, RegolithIter.over_txn,
      TxnInner.with_txn_usable husable]
    rfl
  rw [hrun]
  exact ⟨_, .iter ⟨rfl, rfl, rfl⟩, h.holding t⟩

theorem commit_does (h : Holds x b) :
    ∃ b', Does view closed b .Commit (x.run (C := C) closed .Commit).1 b' ∧
      Holds (x.run (C := C) closed .Commit).2 b' := by
  simp only [Sequential.run]
  split_ifs with hresolved hclosed
  · exact ⟨b, .resolved (by simp) (by simp) (h.resolved.mp hresolved), h⟩
  · obtain rfl : closed = true := hclosed
    exact ⟨b, .closed (by simp) fun _ => h.unresolved hresolved, h⟩
  · obtain rfl : closed = false := Bool.eq_false_iff.mpr hclosed
    have hfate := h.unresolved hresolved
    obtain ⟨readOnly, t, fate⟩ := b
    obtain rfl : fate = .unresolved := hfate
    have husable : x.handle.body.Usable t := ⟨h.clean, h.live rfl⟩
    have hafter (fate : Fate) (hfate : fate ≠ .unresolved) (spent : Option T) :
        Holds ⟨⟨x.handle.body.holding none, spent⟩, true⟩ ⟨readOnly, t, fate⟩ :=
      ⟨h.clean, h.readOnly, by simp [hfate], fun heq => absurd heq hfate⟩
    simp only [FfiCall.run, regolith_txn_commit, TxnInner.take_live husable]
    rcases hcommit : (OwnedTransaction.commit t).1 with payload | error | ⟨⟩
    · obtain ⟨err, hfails, -⟩ := fails_panic payload
      refine ⟨_, ?_, hafter .dropped (by simp) _⟩
      refine (hfails.checked (σ := Source C T S) (α := Unit) fun _ => .nothing) ▸ .lost ?_ hfails
      simp only [Method.engine, hcommit]
      rfl
    · obtain ⟨err, hfails⟩ := fails_op_error (.transaction error)
      refine ⟨_, ?_, hafter .dropped (by simp) _⟩
      refine (hfails.checked (σ := Source C T S) (α := Unit) fun _ => .nothing) ▸ .lost ?_ hfails
      simp only [Method.engine, hcommit]
      rfl
    · refine ⟨_, .committed ?_, hafter .committed (by simp) _⟩
      simp only [Method.engine, hcommit]
      rfl

theorem discard_does (h : Holds x b) :
    ∃ b', Does view closed b .Discard (x.run (C := C) closed .Discard).1 b' ∧
      Holds (x.run (C := C) closed .Discard).2 b' := by
  simp only [Sequential.run]
  split_ifs with hresolved
  · exact ⟨b, .discarded_again (h.resolved.mp hresolved), h⟩
  · have hfate := h.unresolved hresolved
    obtain ⟨readOnly, t, fate⟩ := b
    obtain rfl : fate = .unresolved := hfate
    have husable : x.handle.body.Usable t := ⟨h.clean, h.live rfl⟩
    refine ⟨_, .discarded, ?_⟩
    simp only [FfiCall.run, TxnInner.free_live husable]
    exact ⟨h.clean, h.readOnly, by simp, by simp⟩

-- Every method is a step of the map.
theorem run_does (laws : BufferLaws view) (h : Holds x b) (m : Method) :
    ∃ b', Does view closed b m (x.run (C := C) closed m).1 b' ∧
      Holds (x.run (C := C) closed m).2 b' := by
  cases m with
  | Get key => exact get_does laws h key
  | Has key => exact has_does laws h key
  | Set key value => exact set_does laws h key value
  | Delete key => exact delete_does laws h key
  | NewIter opts => exact iter_does h opts
  | Commit => exact commit_does h
  | Discard => exact discard_does h

-- What goroutines see of a transaction is what they might see of a map that their writes
-- change one at a time, until the one of them that resolves it.
theorem txn_is_a_buffer {ι : Type} [DecidableEq ι] (laws : BufferLaws view) {txn : T}
    {readOnly : Bool} {τ : List (Served.Label ι (signature (Source C T S)))}
    {s : Served.State ι (signature (Source C T S)) (Handle T)}
    (run : Served.Runs (object (Source C T S)) serves ⟨.new txn readOnly, none⟩ τ s) :
    Linear.Linearizable (buffered (σ := Source C T S) view readOnly txn)
      (Served.history (.none _) τ) := by
  have hseq := ((linearized txn readOnly).linearizable run).in_time (overdue_late txn readOnly)
  refine hseq.mono (R := Holds) (holds_first txn readOnly) ?_
  rintro x x' call now answer b h hrun
  obtain ⟨b', hdoes, hholds⟩ := run_does laws h call.method
  rw [hrun] at hdoes hholds
  exact ⟨b', hdoes, hholds⟩

end Refinement

section Example

-- An engine's transaction over a list: writes at `bad` keys panic.
theorem listTxn_laws {bad : Bytes → Bool} :
    BufferLaws fun t : ListTxn bad => StoreEngine.contents t.contents where
  found t key slice h := by
    cases hbad : bad key with
    | true => simp [OwnedTransaction.get_slice, hbad] at h
    | false =>
      simp only [OwnedTransaction.get_slice, hbad, Bool.false_eq_true, if_false, Except.ok.injEq]
        at h
      exact h.symm
  read t key := by cases hbad : bad key <;> simp [OwnedTransaction.get_slice, hbad]
  taken t op h := by
    rw [← contents_apply]
    cases op with
    | Set key value =>
      cases hbad : bad key with
      | true => simp [buffer, OwnedTransaction.put, hbad] at h
      | false => simp [buffer, OwnedTransaction.put, hbad, Contents.apply]
    | Delete key =>
      cases hbad : bad key with
      | true => simp [buffer, OwnedTransaction.delete, hbad] at h
      | false => simp [buffer, OwnedTransaction.delete, hbad, Contents.apply]
  refused t op error h := by
    cases op with
    | Set key value => cases hbad : bad key <;> simp [buffer, OwnedTransaction.put, hbad] at h
    | Delete key => cases hbad : bad key <;> simp [buffer, OwnedTransaction.delete, hbad] at h

end Example

-- A write that comes while a read is under way, which then finds it, though the database was
-- closed meanwhile.
theorem txn_is_a_buffer_set :
    Linear.Linearizable
      (buffered (σ := Source (ListCursor noBad) (ListTxn noBad) (ListStream noBad))
        (fun t : ListTxn noBad => StoreEngine.contents t.contents) false ⟨Contents.empty⟩)
      [.enter 0 (.Get [1]), .enter 1 (.Set [1] [2]), .leave 1 (.Set [1] [2]) (.ok (.ok .nothing)),
        .raise .closed, .leave 0 (.Get [1]) (.ok (.ok (.bytes (some [2])))), .enter 1 (.Has [1]),
        .leave 1 (.Has [1]) (refuse .ErrClosed)] := by
  have run : Served.Runs (ι := Nat)
    (object (Source (ListCursor noBad) (ListTxn noBad) (ListStream noBad))) serves
    (Handle.mk (.new (ListTxn.mk Contents.empty) false) none) [] _ := .nil
  have run := run.snoc (.event (.enter (g := 0) (m := Method.Get [1]) rfl) rfl)
  have run := run.snoc (.event (.lock (g := 0) rfl rfl) rfl)
  have run := run.snoc (.event (.access (g := 0) rfl) rfl)
  have run := run.snoc (.event (.access (g := 0) rfl) rfl)
  have run := run.snoc (.event (.access (g := 0) rfl) rfl)
  have run := run.snoc (.event (.start (g := 0) rfl) rfl)
  have run := run.snoc (.event (.enter (g := 1) (m := Method.Set [1] [2]) rfl) rfl)
  have run := run.snoc (.event (.lock (g := 1) rfl rfl) rfl)
  have run := run.snoc (.event (.access (g := 1) rfl) rfl)
  have run := run.snoc (.event (.access (g := 1) rfl) rfl)
  have run := run.snoc (.event (.access (g := 1) rfl) rfl)
  have run := run.snoc (.event (.start (g := 1) rfl) rfl)
  have run := run.snoc (.serve (g := 1) rfl rfl fun _ => rfl)
  have run := run.snoc (.finish (.finish (g := 1) _ rfl) rfl)
  have run := run.snoc (.event (.unlock (g := 1) rfl rfl) rfl)
  have run := run.snoc (.event (.leave (g := 1) rfl) rfl)
  have hout :
      (object (Source (ListCursor noBad) (ListTxn noBad) (ListStream noBad))).outside .closed =
        true := rfl
  have run := run.snoc (.event (.raise hout) rfl)
  have run := run.snoc (.serve (g := 0) rfl rfl fun _ => rfl)
  have run := run.snoc (.finish (.finish (g := 0) _ rfl) rfl)
  have run := run.snoc (.event (.unlock (g := 0) rfl rfl) rfl)
  have run := run.snoc (.event (.leave (g := 0) rfl) rfl)
  have run := run.snoc (.event (.enter (g := 1) (m := Method.Has [1]) rfl) rfl)
  have run := run.snoc (.event (.lock (g := 1) rfl rfl) rfl)
  have run := run.snoc (.event (.access (g := 1) rfl) rfl)
  have run := run.snoc (.event (.unlock (g := 1) rfl rfl) rfl)
  have run := run.snoc (.event (.leave (g := 1) rfl) rfl)
  have h := txn_is_a_buffer listTxn_laws run
  simp only [Served.history, List.nil_append, List.cons_append, List.filterMap_cons, Served.seen,
    Served.Faults.none, Option.map_none, List.filterMap_nil] at h
  exact h

end Regolith.Go.Shared.Txn
