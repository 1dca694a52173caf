import Regolith.Ffi.Iter
import Regolith.Go.Write

-- The Go iterator (`iter.go`), which takes keys from the boundary a batch at a time.
namespace Regolith

-- `snapshot().into_owned_iter()` of a store.
class SnapshotStore (St : Type) (C : outParam Type) where
  into_owned_iter : St → C

namespace Ffi

variable {St C : Type} [SnapshotStore St C]

def regolith_db_iter (T S : Type) (db : Option St) (opts : Option RegolithIterOptions)
    (out err : OutParam) : Reply (RegolithIter (Source C T S)) :=
  match db with
  | none => guard err (fail (.invalid_arg "null db handle"))
  | some store =>
      if out = .null then guard err (fail (.invalid_arg "null out-param"))
      else
        guard err (.ok (.over_snapshot T S (SnapshotStore.into_owned_iter store) (bounds_from opts)))

end Ffi

namespace Go

open Ffi

-- A call that does not return: a Go panic, or a loop that never ends.
inductive Crash where
  | panic (message : String)
  | hang
  deriving DecidableEq

structure IterOptions where
  Prefix : Bytes
  Start : Bytes
  End_ : Bytes
  Reverse : Bool
  KeysOnly : Bool

def cBool (b : Bool) : UInt8 := if b then 1 else 0

def newIterOptions (opts : IterOptions) : RegolithIterOptions :=
  ⟨bytePtr opts.Prefix, bytePtr opts.Start, bytePtr opts.End_, cBool opts.Reverse,
    cBool opts.KeysOnly⟩

def batchEntries : Nat := 256

structure entry where
  kOff : Int32
  kLen : Int32
  deriving DecidableEq

-- `db_closed` is what `db.closed` loads, which nothing here changes, and `pos` is never
-- negative.
structure Iter (σ : Type) where
  db_closed : Bool
  i : RegolithIter σ
  keysOnly : Bool
  buf : Bytes
  ents : List entry
  pos : Nat
  done : Bool

-- `C.GoBytes`, over memory that holds `bytes`.
def GoBytes (bytes : Bytes) (n : Int32) : Except Crash Bytes :=
  if n.toInt < 0 then .error (.panic "gobytes: length out of range")
  else .ok (bytes.take n.toInt.toNat)

def takeBuf (bytes : Bytes) (status : Status) (detail : Option String) :
    Except Crash (Bytes × Option GoError) :=
  match statusToErr status detail with
  | some err => .ok ([], some err)
  | none =>
      if bytes.length = 0 then .ok ([], none)
      else (GoBytes bytes (.ofNat bytes.length)).map (·, none)

-- The loop of `refill` over the frame, from offset `at_`, with the rounds left to it.
def parse (frame : Bytes) : Nat → Int → List entry → Except Crash (List entry)
  | rounds, at_, ents =>
      if at_ < frame.length then
        if at_ < 0 ∨ frame.length < at_ + 4 then .error (.panic "index out of range")
        else
          match rounds with
          | 0 => .error .hang
          | rounds + 1 =>
              let keyLen := Int32.ofNat (Radix.ofLE ((frame.drop at_.toNat).take 4))
              let at_ := at_ + 4
              parse frame rounds (at_ + keyLen.toInt) (ents ++ [⟨.ofInt at_, keyLen⟩])
      else .ok ents

-- `buf[lo:hi]`, with the capacity of `buf` taken as its length.
def slice (buf : Bytes) (lo hi : Int32) : Except Crash Bytes :=
  if 0 ≤ lo.toInt ∧ lo.toInt ≤ hi.toInt ∧ hi.toInt ≤ buf.length then
    .ok ((buf.take hi.toInt.toNat).drop lo.toInt.toNat)
  else .error (.panic "slice bounds out of range")

namespace Iter

variable {σ : Type} [EntrySource σ]

def refill (it : Iter σ) : Except Crash (Bool × Option GoError) × Iter σ :=
  let (reply, i) :=
    regolith_iter_next_batch it.i batchEntries .writable .writable .writable .writable
  let out := reply.out.getD ⟨[], 0⟩
  let it := { it with i := i, ents := [], pos := 0 }
  match takeBuf out.frame reply.status reply.err with
  | .error crash => (.error crash, it)
  | .ok (_, some err) => (.ok (false, some err), it)
  | .ok (frame, none) =>
      if out.count = 0 then (.ok (false, none), { it with done := true })
      else
        let it := { it with buf := frame }
        match parse frame frame.length 0 [] with
        | .error crash => (.error crash, it)
        | .ok ents => (.ok (true, none), { it with ents := ents })

def Next (it : Iter σ) : Except Crash (Bool × Option GoError) × Iter σ :=
  if it.db_closed then (.ok (false, some (.bare .ErrClosed)), it)
  else if it.pos + 1 < it.ents.length then (.ok (true, none), { it with pos := it.pos + 1 })
  else if it.done then (.ok (false, none), { it with pos := it.ents.length })
  else it.refill

def invalidate (it : Iter σ) : Iter σ :=
  { it with ents := [], pos := 0, done := false }

def Seek (it : Iter σ) (key : Bytes) : Except Crash (Bool × Option GoError) × Iter σ :=
  if it.db_closed then (.ok (false, some (.bare .ErrClosed)), it)
  else
    let it := it.invalidate
    let (reply, i) := regolith_iter_seek it.i (bytePtr key) .writable .writable
    let it := { it with i := i }
    match statusToErr reply.status reply.err with
    | some err => (.ok (false, some err), it)
    | none =>
        if reply.out.getD false = false then (.ok (false, none), { it with done := true })
        else it.refill

def Reset (it : Iter σ) : Iter σ :=
  let it := it.invalidate
  { it with i := (regolith_iter_reset it.i .null).2 }

-- `none` is nil.
def Key (it : Iter σ) : Except Crash (Option Bytes) :=
  match it.ents[it.pos]? with
  | none => .ok none
  | some e => (slice it.buf e.kOff (e.kOff + e.kLen)).map some

def Value (it : Iter σ) : Except Crash (Option Bytes × Option GoError) :=
  if it.keysOnly ∨ it.ents.length ≤ it.pos then .ok (none, none)
  else
    let reply := regolith_iter_batch_value it.i it.pos .writable .writable .writable
    match statusToErr reply.status reply.err with
    | some err => .ok (none, some err)
    | none =>
        let val := (reply.out.getD none).getD []
        if val.length = 0 then .ok (none, none)
        else (GoBytes val (.ofNat val.length)).map (some ·, none)

-- `fn` may change what it has captured, `s`. A lent slice is as long as `int(valLen)` says,
-- and an `int` has 64 bits.
def borrowValue {ρ : Type} (it : Iter σ)
    (fn : Option Bytes → ρ → Except Crash (Option GoError) × ρ) (s : ρ) :
    Except Crash (Option GoError) × ρ :=
  if it.keysOnly ∨ it.ents.length ≤ it.pos then fn none s
  else
    let reply := regolith_iter_batch_value it.i it.pos .writable .writable .writable
    match statusToErr reply.status reply.err with
    | some err => (.ok (some err), s)
    | none =>
        let val := (reply.out.getD none).getD []
        if val.length = 0 then fn none s else fn (some val) s

def BorrowValue {ρ : Type} (it : Iter σ)
    (fn : Option Bytes → ρ → Except Crash (Option GoError) × ρ) (s : ρ) :
    Except Crash (Option GoError) × ρ :=
  it.borrowValue fn s

def AppendValue (it : Iter σ) (dst : Bytes) : Except Crash (Bytes × Option GoError) :=
  match it.borrowValue (fun value dst => (.ok none, dst ++ value.getD [])) dst with
  | (.error crash, _) => .error crash
  | (.ok (some err), _) => .ok ([], some err)
  | (.ok none, dst) => .ok (dst, none)

end Iter

def Iter.opened {σ : Type} (i : RegolithIter σ) (opts : IterOptions) : Iter σ :=
  ⟨false, i, opts.KeysOnly, [], [], 0, false⟩

-- How either `NewIter` ends.
def newIter {σ : Type} (reply : Reply (RegolithIter σ)) (opts : IterOptions) :
    Except GoError (Iter σ) :=
  match statusToErr reply.status reply.err, reply.out with
  | some err, _ => .error err
  | none, none => .error (.bare .ErrUnexpected)
  | none, some i => .ok (.opened i opts)

def DB.NewIter {St C : Type} [SnapshotStore St C] (T S : Type) (db : DB St) (opts : IterOptions) :
    Except GoError (Iter (Source C T S)) :=
  if db.closed then .error (.bare .ErrClosed)
  else newIter (regolith_db_iter T S db.db (some (newIterOptions opts)) .writable .writable) opts

-- `Txn.NewIter`, with what it finds in `db.closed` and `resolved` under the read lock.
def Txn.NewIter {T : Type} (C S : Type) (closed resolved : Bool) (t : TxnInner T)
    (opts : IterOptions) : Except GoError (Iter (Source C T S)) × TxnInner T :=
  if closed then (.error (.bare .ErrClosed), t)
  else if resolved then (.error (.bare .ErrDiscarded), t)
  else
    let (reply, t) := regolith_txn_iter C S t (some (newIterOptions opts)) .writable .writable
    (newIter reply opts, t)

-- `Txn.Set` and `Txn.Delete`, with the same.
def Txn.Set {T S : Type} [OwnedTransaction T S] (closed resolved : Bool) (t : TxnInner T)
    (key value : Bytes) : Option GoError × TxnInner T :=
  if closed then (some (.bare .ErrClosed), t)
  else if resolved then (some (.bare .ErrDiscarded), t)
  else
    let (reply, t) := regolith_txn_set t (bytePtr key) (bytePtr value) .writable
    (statusToErr reply.status reply.err, t)

def Txn.Delete {T S : Type} [OwnedTransaction T S] (closed resolved : Bool) (t : TxnInner T)
    (key : Bytes) : Option GoError × TxnInner T :=
  if closed then (some (.bare .ErrClosed), t)
  else if resolved then (some (.bare .ErrDiscarded), t)
  else
    let (reply, t) := regolith_txn_delete t (bytePtr key) .writable
    (statusToErr reply.status reply.err, t)

end Go

end Regolith
