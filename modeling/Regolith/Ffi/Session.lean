import Regolith.Ffi.Iter.Agreement

-- A transaction handle and the iterators opened from it, which share its body: the calls
-- made on them, one after another.
namespace Regolith.Ffi

-- `spent` is what a commit or a rollback made of the transaction.
structure Session (C T S : Type) where
  body : TxnInner T
  iters : List (RegolithIter (Source C T S))
  spent : Option T

inductive SessionCall where
  | get_borrowed (key : InBytes) (val val_len value_handle err : OutParam)
  | has (key : InBytes) (found err : OutParam)
  | set (key value : InBytes) (err : OutParam)
  | delete (key : InBytes) (err : OutParam)
  | iter (opts : Option RegolithIterOptions) (out err : OutParam)
  | discard (err : OutParam)
  | commit (err : OutParam)
  | free (err : OutParam)
  | on (index : Nat) (call : IterCall)

-- The calls that free the handle, after which none is made on it.
def SessionCall.frees : SessionCall → Bool
  | .commit _ | .free _ => true
  | _ => false

def SessionCall.on_handle : SessionCall → Bool
  | .on _ _ => false
  | _ => true

def IterReply.status : IterReply → Status
  | .flag reply => reply.status
  | .batch reply => reply.status
  | .done reply => reply.status
  | .bytes reply => reply.status
  | .lent reply => reply.status

namespace Session

variable {C T S : Type}

-- `regolith_db_txn`, once the engine has begun a transaction.
def begun (C S : Type) (txn : T) (readonly : Bool) : Session C T S :=
  ⟨.new txn readonly, [], none⟩

variable [OwnedSnapshotIter C] [TxnScanStream S] [OwnedTransaction T S]

-- An iterator finds the body as the last call left it. There is no reply where there is
-- no such iterator.
def step (s : Session C T S) : SessionCall → Option Status × Session C T S
  | .get_borrowed key val val_len value_handle err =>
      let (reply, body) := regolith_txn_get_borrowed s.body key val val_len value_handle err
      (some reply.status, { s with body := body })
  | .has key found err =>
      let (reply, body) := regolith_txn_has s.body key found err
      (some reply.status, { s with body := body })
  | .set key value err =>
      let (reply, body) := regolith_txn_set s.body key value err
      (some reply.status, { s with body := body })
  | .delete key err =>
      let (reply, body) := regolith_txn_delete s.body key err
      (some reply.status, { s with body := body })
  | .iter opts out err =>
      let (reply, body) := regolith_txn_iter C S s.body opts out err
      (some reply.status, { s with body := body, iters := s.iters ++ reply.out.toList })
  | .discard err =>
      let (reply, spent, body) := regolith_txn_discard s.body err
      (some reply.status, { s with body := body, spent := spent.or s.spent })
  | .commit err =>
      let (reply, spent, body) := regolith_txn_commit s.body err
      (some reply.status, { s with body := body, spent := spent.or s.spent })
  | .free err =>
      let (reply, spent, body) := regolith_txn_free s.body err
      (some reply.status, { s with body := body, spent := spent.or s.spent })
  | .on index call =>
      match s.iters[index]? with
      | none => (none, s)
      | some it =>
          let (reply, it) := call.run { it with source := it.source.with_handle s.body }
          (some reply.status,
            { s with body := it.source.handle.getD s.body, iters := s.iters.set index it })

def run (s : Session C T S) (calls : List SessionCall) : Session C T S :=
  calls.foldl (fun s call => (s.step call).2) s

-- No call on the handle once it is freed.
def Proper (calls : List SessionCall) : Prop :=
  calls.Pairwise fun call later => call.frees = true → later.on_handle = false

instance (calls : List SessionCall) : Decidable (Proper calls) :=
  inferInstanceAs (Decidable (calls.Pairwise _))

end Session

-- A call of the engine transaction.
inductive EngineCall where
  | get_slice (key : Bytes)
  | put (key value : Bytes)
  | delete (key : Bytes)
  | scan_stream_in (start end_ : Option Bytes) (direction : ScanDirection)
  | commit
  | rollback
  deriving DecidableEq

def EngineCall.resolves : EngineCall → Bool
  | .commit | .rollback => true
  | _ => false

def EngineCall.writes : EngineCall → Bool
  | .put _ _ | .delete _ => true
  | _ => false

-- An engine transaction that keeps the calls that reached it.
structure Logged (T : Type) where
  txn : T
  log : List EngineCall

instance {T S : Type} [OwnedTransaction T S] : OwnedTransaction (Logged T) S where
  get_slice t key :=
    let (result, txn) := OwnedTransaction.get_slice t.txn key
    (result, ⟨txn, t.log ++ [.get_slice key]⟩)
  put t key value :=
    let (result, txn) := OwnedTransaction.put t.txn key value
    (result, ⟨txn, t.log ++ [.put key value]⟩)
  delete t key :=
    let (result, txn) := OwnedTransaction.delete t.txn key
    (result, ⟨txn, t.log ++ [.delete key]⟩)
  scan_stream_in t start end_ direction :=
    let (result, txn) := OwnedTransaction.scan_stream_in t.txn start end_ direction
    (result, ⟨txn, t.log ++ [.scan_stream_in start end_ direction]⟩)
  commit t :=
    let (result, txn) := OwnedTransaction.commit t.txn
    (result, ⟨txn, t.log ++ [.commit]⟩)
  rollback t := ⟨OwnedTransaction.rollback t.txn, t.log ++ [.rollback]⟩

-- All that reached the engine transaction, before and at its end.
def Session.log {C T S : Type} (s : Session C (Logged T) S) : List EngineCall :=
  match s.body.txn.value, s.spent with
  | some txn, _ => txn.log
  | none, some txn => txn.log
  | none, none => []

end Regolith.Ffi
