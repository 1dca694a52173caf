import Regolith.Ffi.Abi.Locals
import Regolith.Go.Shared.DB
import Regolith.Go.Write.Theorems
import Regolith.Library.Linked

-- `DB` down to the engine: what goroutines share is a map from keys, that may be closed.
namespace Regolith.Go.Shared.DB

open Ffi Goroutine Program

-- The engine's own part of an iterator is not kept at the boundary.
abbrev Opened := Source Unit Unit Unit

section Link

def FfiCall.entry : FfiCall → Abi.DbCall
  | .regolith_db_get_borrowed key => .get_borrowed key .writable .writable .writable
  | .regolith_db_has key => .has key .writable
  | .regolith_db_set key value => .set key value
  | .regolith_db_delete key => .delete key
  | .regolith_db_write ops => .write ops
  | .regolith_db_drop_all => .drop_all
  | .regolith_db_iter opts => .iter (some opts) .writable
  | .regolith_db_txn readonly => .txn readonly .writable
  | .regolith_db_close => .close

-- What a call came to, with what it left in a variable of the caller.
def handed {α : Type} (outcome : Except Raised Unit) (out : Option α) : Reply α :=
  let r := guard .writable outcome
  ⟨r.status, r.err, r.out.bind fun _ => out⟩

def FfiCall.reply (outcome : Except Raised Unit) (l : Abi.Locals) : (c : FfiCall) → c.Reply Opened
  | .regolith_db_get_borrowed _ =>
      handed outcome (some (⟨(l.val.getD []).take l.valLen, l.handle.isSome⟩ : Borrowed))
  | .regolith_db_has _ => handed outcome (some l.found)
  | .regolith_db_iter _ => handed outcome l.it
  | .regolith_db_set _ _ | .regolith_db_delete _ | .regolith_db_write _ | .regolith_db_drop_all
  | .regolith_db_txn _ | .regolith_db_close => handed outcome (some ())

def FfiCall.program (c : FfiCall) : Program.Prog Abi.engineInterface (c.Reply Opened) :=
  (Abi.stored (Abi.Call.db (some ()) c.entry).body .zero).bind fun (outcome, l) =>
    .ret (c.reply outcome l)

def linked : Object ((signature Opened).over Abi.engineInterface) :=
  (object Opened).linked FfiCall.program

end Link

-- What the engine promises of its store. Each call is one step on it, that may fail or panic.
section Engine

-- What a call does to the store where it succeeds.
def written (c : Abi.EngineCall) (kv : StoreMap) : StoreMap :=
  match c with
  | .put key value => applyOp kv (.Set key value)
  | .delete key => applyOp kv (.Delete key)
  | .write batch => applyOps kv batch.ops
  | .drop_all => fun _ => none
  | _ => kv

def succeeded : (c : Abi.EngineCall) → Except Payload c.Reply → Bool
  | .put _ _, (.ok result : Except Payload (Except EngineError Unit)) => result.isOk
  | .delete _, (.ok result : Except Payload (Except EngineError Unit)) => result.isOk
  | .write _, (.ok result : Except Payload (Except EngineError Unit)) => result.isOk
  | .drop_all, (.ok result : Except Payload (Except EngineError Unit)) => result.isOk
  | _, _ => false

-- A call that failed has left no trace, or has done its work: only `drop_all` may have done
-- a part of it.
def Left (c : Abi.EngineCall) (kv kv' : StoreMap) : Prop :=
  kv' = kv ∨ kv' = written c kv ∨ c = .drop_all ∧ ∀ key, kv' key = kv key ∨ kv' key = none

abbrev Engine (St : Type) := St → (c : Abi.EngineCall) → Except Payload c.Reply → St → Prop

structure Lawful {St : Type} (serves : Engine St) (contents : St → StoreMap) : Prop where
  get : ∀ {st st' key value}, serves st (.get_slice key) (.ok (.ok value)) st' →
    value = contents st key
  has : ∀ {st st' key found}, serves st (.has key) (.ok (.ok found)) st' →
    found = (contents st key).isSome
  wrote : ∀ {st st'} {c : Abi.EngineCall} {r : Except Payload c.Reply},
    serves st c r st' → succeeded c r = true → contents st' = written c (contents st)
  left : ∀ {st st'} {c : Abi.EngineCall} {r : Except Payload c.Reply},
    serves st c r st' → Left c (contents st) (contents st')
  view : ∀ {st st'} {r : Except Payload Unit}, serves st .view r st' → r = .ok ()

-- How a call of the engine fails.
inductive Fault where
  | error (e : EngineError)
  | panic (payload : Payload)

-- What the boundary makes of it.
def Fault.raised : Fault → Raised
  | .error e => .failure (.of_error e)
  | .panic payload => .panic payload

def panicked {α : Type} : Except Payload α → Option Fault
  | .ok _ => none
  | .error payload => some (.panic payload)

def erred {α : Type} : Except Payload (Except EngineError α) → Option Fault
  | .ok (.ok _) => none
  | .ok (.error e) => some (.error e)
  | .error payload => some (.panic payload)

def faulted : (c : Abi.EngineCall) → Except Payload c.Reply → Option Fault
  | .get_slice _, r => erred (α := Option Bytes) r
  | .has _, r => erred (α := Bool) r
  | .put _ _, r | .delete _, r | .write _, r | .drop_all, r | .close, r => erred (α := Unit) r
  | _, r => panicked r

end Engine

-- The abstract store.
section Store

structure Store where
  closed : Bool
  contents : StoreMap

-- The ops of a method that writes some.
def Method.ops : Method → Option (List RawOp)
  | .Set key value => some [.Set key value]
  | .Delete key => some [.Delete key]
  | .Write none => some []
  | .Write (some b) => if b.n = 0 then some [] else (decode b.buf).toOption.map (·.ops)
  | _ => none

-- As `Left`, for a method that returns an error.
def Method.Leaves (m : Method) (kv kv' : StoreMap) : Prop :=
  kv' = kv ∨ (∃ ops ∈ m.ops, kv' = applyOps kv ops) ∨
    m = .DropAll ∧ ∀ key, kv' key = kv key ∨ kv' key = none

-- By the failures of the engine that came up in the call. One is what any method but `Close`
-- ends with; `Close` goes on from the first, and returns the last.
inductive Does : Store → Method → List Fault → Answer Opened → Store → Prop where
  | refused {kv m} (hm : m ≠ .Close) : Does ⟨true, kv⟩ m [] (refuse .ErrClosed) ⟨true, kv⟩
  | found {kv key value} (h : kv key = some value) :
      Does ⟨false, kv⟩ (.Get key) [] (copied value) ⟨false, kv⟩
  | missing {kv key} (h : kv key = none) :
      Does ⟨false, kv⟩ (.Get key) [] (refuse .ErrNotFound) ⟨false, kv⟩
  | has {kv key} :
      Does ⟨false, kv⟩ (.Has key) [] (.ok (.ok (.found (kv key).isSome))) ⟨false, kv⟩
  | wrote {kv m ops} (h : m.ops = some ops) :
      Does ⟨false, kv⟩ m [] (.ok (.ok .nothing)) ⟨false, applyOps kv ops⟩
  | malformed {kv b fault err} (hn : b.n ≠ 0) (hdecode : decode b.buf = .error fault)
      (herr : reported (.failure fault.failure) = some err) :
      Does ⟨false, kv⟩ (.Write (some b)) [] (.ok (.error err)) ⟨false, kv⟩
  | dropped {kv} : Does ⟨false, kv⟩ .DropAll [] (.ok (.ok .nothing)) ⟨false, fun _ => none⟩
  | iter {kv opts} :
      Does ⟨false, kv⟩ (.NewIter opts) [] (.ok (.ok (.iter (.opened (.over_snapshot Unit Unit ()
        (bounds_from (some (newIterOptions opts)))) opts)))) ⟨false, kv⟩
  | txn {kv readOnly} : Does ⟨false, kv⟩ (.NewTxn readOnly) [] (.ok (.ok .txn)) ⟨false, kv⟩
  | failed {kv kv' m fault err} (hm : m ≠ .Close) (herr : reported fault.raised = some err)
      (hne : err ≠ .bare .ErrNotFound) (hleft : m.Leaves kv kv') :
      Does ⟨false, kv⟩ m [fault] (.ok (.error err)) ⟨false, kv'⟩
  | close {kv} : Does ⟨false, kv⟩ .Close [] (.ok (.ok .nothing)) ⟨true, kv⟩
  | close_failed {kv faults fault err} (herr : reported fault.raised = some err) :
      Does ⟨false, kv⟩ .Close (faults ++ [fault]) (.ok (.error err)) ⟨true, kv⟩
  | closed_again {kv} : Does ⟨true, kv⟩ .Close [] (.ok (.ok .nothing)) ⟨true, kv⟩

def store (contents : StoreMap) : Linear.Object Method (Answer Opened) Fault Flag :=
  ⟨Store, ⟨false, contents⟩, fun x call _ answer x' => Does x call.method call.faults answer x'⟩

end Store

end Regolith.Go.Shared.DB
