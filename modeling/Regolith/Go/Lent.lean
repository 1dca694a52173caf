import Regolith.Go.Options
import Regolith.Go.Shared.DB
import Regolith.Go.Shared.Txn
import Regolith.Library.Lending

-- `OpenWith` and the methods of `DB`, `Txn` and `Iter`, by the calls they make into C and
-- what these hand them. A flag is what the method finds it to be, and a crash runs the defers.
namespace Regolith.Go.Lent

open Ffi Lending Program

-- `none` is nil.
abbrev Ptr := Option Nat

-- What is handed to Go and has to be given back: an allocation, told apart from any other.
inductive Obj where
  | detail (id : Nat)
  | value (id : Nat)
  | frame (id len : Nat)
  | opts (id : Nat)
  | buf (id : Nat)
  deriving DecidableEq

abbrev Obj.Data : Obj → Type
  | .detail _ => String
  | .value _ | .frame _ _ => Bytes
  | .opts _ | .buf _ => Unit

-- An options struct in C memory, at `opts`. A range is a pointer and a length.
structure iterOptions where
  opts : Nat
  prefix_ : Ptr × Nat
  start : Ptr × Nat
  end_ : Ptr × Nat
  reverse : UInt8
  keys_only : UInt8
  bufs : List Nat

inductive FfiCall where
  | regolith_db_open_with_options (path : InBytes) (opts : RegolithOptions)
  | regolith_db_get_borrowed (db : Ptr) (key : InBytes)
  | regolith_db_has (db : Ptr) (key : InBytes)
  | regolith_db_set (db : Ptr) (key value : InBytes)
  | regolith_db_delete (db : Ptr) (key : InBytes)
  | regolith_db_write (db : Ptr) (ops : InBytes)
  | regolith_db_drop_all (db : Ptr)
  | regolith_db_close (db : Ptr)
  | regolith_db_iter (db : Ptr) (opts : iterOptions)
  | regolith_db_txn (db : Ptr) (readonly : UInt8)
  | regolith_txn_get_borrowed (t : Ptr) (key : InBytes)
  | regolith_txn_has (t : Ptr) (key : InBytes)
  | regolith_txn_set (t : Ptr) (key value : InBytes)
  | regolith_txn_delete (t : Ptr) (key : InBytes)
  | regolith_txn_iter (t : Ptr) (opts : iterOptions)
  | regolith_txn_commit (t : Ptr)
  | regolith_txn_free (t : Ptr)
  | regolith_iter_next_batch (i : Ptr) (max_entries : Nat)
  | regolith_iter_seek (i : Ptr) (key : InBytes)
  | regolith_iter_reset (i : Ptr)
  | regolith_iter_batch_value (i : Ptr) (idx : Nat)
  | regolith_iter_close (i : Ptr)
  | calloc
  | CBytes (bytes : Bytes)

-- The status of a call, and what it left in the out-params that Go set to nil or zero.
structure Handed (α : Type) where
  status : Status
  cerr : Ptr
  out : α

structure ValueOut where
  val : Ptr
  valLen : Nat
  handle : Ptr

structure BatchOut where
  out : Ptr
  outLen : Nat
  count : Nat

-- What a call hands back beside its status and detail. The value of a batch entry is lent:
-- it is in memory that the batch keeps.
inductive Out where
  | nothing
  | flag
  | handle
  | value
  | batch
  | lent

abbrev Out.Data : Out → Type
  | .nothing => Unit
  | .flag => UInt8
  | .handle => Ptr
  | .value => ValueOut
  | .batch => BatchOut
  | .lent => Bytes

-- `reports` has an `err` slot, `silent` is passed a nil one, and `allocates` is no call of
-- the FFI: it makes C memory, and is taken not to fail.
inductive Form where
  | reports (out : Out)
  | silent
  | allocates (obj : Nat → Obj)

abbrev Form.Reply : Form → Type
  | .reports out => Handed out.Data
  | .silent => Status
  | .allocates _ => Nat

abbrev FfiCall.form : FfiCall → Form
  | .regolith_db_open_with_options _ _ | .regolith_db_iter _ _ | .regolith_db_txn _ _
  | .regolith_txn_iter _ _ => .reports .handle
  | .regolith_db_get_borrowed _ _ | .regolith_txn_get_borrowed _ _ => .reports .value
  | .regolith_db_has _ _ | .regolith_txn_has _ _ | .regolith_iter_seek _ _ => .reports .flag
  | .regolith_db_set _ _ _ | .regolith_db_delete _ _ | .regolith_db_write _ _
  | .regolith_db_drop_all _ | .regolith_db_close _ | .regolith_txn_set _ _ _
  | .regolith_txn_delete _ _ | .regolith_txn_commit _ | .regolith_iter_close _ =>
      .reports .nothing
  | .regolith_iter_next_batch _ _ => .reports .batch
  | .regolith_iter_batch_value _ _ => .reports .lent
  | .regolith_txn_free _ | .regolith_iter_reset _ => .silent
  | .calloc => .allocates .opts
  | .CBytes _ => .allocates .buf

abbrev FfiCall.Reply (c : FfiCall) : Type := c.form.Reply

abbrev signature : Signature := ⟨Obj, Obj.Data, FfiCall, FfiCall.Reply⟩

abbrev Code := Program.Code signature.interface Crash

-- The contract of the header (`ffi/include/regolith_ffi.h`).
section Contract

def Ptr.objects (ptr : Ptr) (obj : Nat → Obj) : Finset Obj :=
  match ptr with
  | none => ∅
  | some id => {obj id}

def iterOptions.objects (o : iterOptions) : Finset Obj :=
  {.opts o.opts} ∪ o.prefix_.1.objects .buf ∪ o.start.1.objects .buf ∪ o.end_.1.objects .buf

-- The pointer to a value goes into the memory that its handle keeps.
def Out.allows (status : Status) : (out : Out) → out.Data → Prop
  | .value, (r : ValueOut) =>
      (r.handle.isSome ↔ status = OK ∧ r.valLen ≠ 0) ∧ (r.handle.isSome → r.val = r.handle)
  | .batch, (r : BatchOut) => r.out.isSome ↔ status = OK ∧ r.outLen ≠ 0
  | _, _ => True

instance (status : Status) : (out : Out) → (d : out.Data) → Decidable (out.allows status d)
  | .value, (r : ValueOut) =>
      inferInstanceAs (Decidable ((r.handle.isSome ↔ _) ∧ (r.handle.isSome → r.val = r.handle)))
  | .batch, (r : BatchOut) => inferInstanceAs (Decidable (r.out.isSome ↔ _))
  | .nothing, _ | .flag, _ | .handle, _ | .lent, _ => isTrue trivial

def Out.gives : (out : Out) → out.Data → Finset Obj
  | .value, (r : ValueOut) => r.handle.objects .value
  | .batch, (r : BatchOut) => r.out.objects (.frame · r.outLen)
  | _, _ => ∅

def Form.allows : (form : Form) → form.Reply → Prop
  | .reports out, (r : Handed out.Data) =>
      (r.cerr.isSome ↔ HasDetail r.status) ∧ out.allows r.status r.out
  | _, _ => True

instance : (form : Form) → (r : form.Reply) → Decidable (form.allows r)
  | .reports out, (r : Handed out.Data) =>
      inferInstanceAs (Decidable ((r.cerr.isSome ↔ HasDetail r.status) ∧ out.allows r.status r.out))
  | .silent, _ | .allocates _, _ => isTrue trivial

def Form.gives : (form : Form) → form.Reply → Finset Obj
  | .reports out, (r : Handed out.Data) => out.gives r.out ∪ r.cerr.objects .detail
  | .silent, _ => ∅
  | .allocates obj, (id : Nat) => {obj id}

def contract : Contract signature where
  uses
    | .regolith_db_iter _ opts | .regolith_txn_iter _ opts => opts.objects
    | _ => ∅
  allows c r := c.form.allows r
  gives c r := c.form.gives r

instance (c : FfiCall) (r : c.Reply) : Decidable (contract.allows c r) :=
  inferInstanceAs (Decidable (c.form.allows r))

end Contract

def call (c : FfiCall) : Code c.Reply := Code.call (I := signature.interface) (.call c)

def read (o : Obj) : Code o.Data := Code.call (I := signature.interface) (.read o)

def release (o : Obj) : Code Unit := Code.call (I := signature.interface) (.release o)

def nilDereference : Crash := .panic "invalid memory address or nil pointer dereference"

-- `C.GoString(C.regolith_error_message(detail))`, and the release of `detail`.
def takeMessage (detail : Ptr) : Code (Option String) :=
  match detail with
  | none => pure none
  | some id => do
      let message : String ← read (.detail id)
      release (.detail id)
      pure (some message)

def statusToErr (status : Status) (detail : Ptr) : Code (Option GoError) := do
  let message ← takeMessage detail
  pure (Go.statusToErr status message)

-- `C.GoBytes`, over the memory of an object, `none` where the pointer to it is nil.
def GoBytes (memory : Option (Code Bytes)) (n : Int32) : Code Bytes :=
  if n.toInt ≤ 0 then Code.ofExcept (Go.GoBytes [] n)
  else
    match memory with
    | none => Code.ofExcept (.error nilDereference)
    | some memory => do
        let bytes ← memory
        Code.ofExcept (Go.GoBytes bytes n)

def frameAt (ptr : Ptr) (length : Nat) : Option (Code Bytes) :=
  ptr.map fun id => read (.frame id length)

def valueAt (ptr : Ptr) : Option (Code Bytes) :=
  ptr.map fun id => read (.value id)

def regolith_free_buf (ptr : Ptr) (length : Nat) : Prog signature.interface Unit :=
  match ptr with
  | none => .ret ()
  | some id => .call (.release (.frame id length)) .ret

def regolith_release_value (handle : Nat) : Prog signature.interface Unit :=
  .call (.release (.value handle)) .ret

def takeBuf (ptr : Ptr) (length : Nat) (status : Status) (detail : Ptr) :
    Code (Bytes × Option GoError) := do
  match ← statusToErr status detail with
  | some err => pure ([], some err)
  | none =>
      if length = 0 then pure ([], none)
      else
        Code.defer (regolith_free_buf ptr length) do
          let bytes ← GoBytes (frameAt ptr length) (.ofNat length)
          pure (bytes, none)

-- `copyBorrowed`, from where the release of the handle is deferred.
def copyValue (ptr : Ptr) (length : Nat) (status : Status) (detail : Ptr) :
    Code (Option Bytes × Option GoError) := do
  match ← statusToErr status detail with
  | some err => pure (none, some err)
  | none =>
      if length = 0 then pure (none, none)
      else
        let bytes ← GoBytes (valueAt ptr) (.ofNat length)
        pure (some bytes, none)

def copyBorrowed (ptr : Ptr) (length : Nat) (handle : Ptr) (status : Status) (detail : Ptr) :
    Code (Option Bytes × Option GoError) :=
  match handle with
  | none => copyValue ptr length status detail
  | some handle => Code.defer (regolith_release_value handle) (copyValue ptr length status detail)

namespace iterOptions

def dup (o : iterOptions) (b : Bytes) : Code ((Ptr × Nat) × iterOptions) :=
  if b.length = 0 then pure ((none, 0), o)
  else do
    let ptr : Nat ← call (.CBytes b)
    pure ((some ptr, b.length), { o with bufs := o.bufs ++ [ptr] })

def freeBufs : List Nat → Prog signature.interface Unit → Prog signature.interface Unit
  | [], next => next
  | ptr :: ptrs, next => .call (.release (.buf ptr)) fun _ => freeBufs ptrs next

def free (o : iterOptions) : Prog signature.interface Unit :=
  freeBufs o.bufs (.call (.release (.opts o.opts)) .ret)

end iterOptions

def newIterOptions (opts : IterOptions) : Code iterOptions := do
  let ptr : Nat ← call .calloc
  let o : iterOptions := ⟨ptr, (none, 0), (none, 0), (none, 0), 0, 0, []⟩
  let (prefix_, o) ← o.dup opts.Prefix
  let o := { o with prefix_ := prefix_ }
  let (start, o) ← o.dup opts.Start
  let o := { o with start := start }
  let (end_, o) ← o.dup opts.End_
  let o := { o with end_ := end_ }
  pure { o with reverse := cBool opts.Reverse, keys_only := cBool opts.KeysOnly }

structure DB where
  db : Ptr
  closed : Bool

structure Txn where
  t : Ptr
  db_closed : Bool
  resolved : Bool

-- `pos` is never negative, and `db_closed` is what `db.closed` loads.
structure Iter where
  db_closed : Bool
  i : Ptr
  keysOnly : Bool
  buf : Bytes
  ents : List entry
  pos : Nat
  done : Bool
  closed : Bool

def Iter.opened (i : Ptr) (opts : IterOptions) : Iter :=
  ⟨false, i, opts.KeysOnly, [], [], 0, false, false⟩

def OpenWith (path : Bytes) (opts : Options) : Code (Option DB × Option GoError) :=
  match opts.toC with
  | (_, some err) => pure (none, some err)
  | (cOpts, none) => do
      let r : Handed Ptr ← call (.regolith_db_open_with_options (bytePtr path) cOpts)
      match ← statusToErr r.status r.cerr with
      | some err => pure (none, some err)
      | none => pure (some ⟨r.out, false⟩, none)

def DB.Get (db : DB) (key : Bytes) : Code (Option Bytes × Option GoError) :=
  if db.closed then pure (none, some (.bare .ErrClosed))
  else do
    let r : Handed ValueOut ← call (.regolith_db_get_borrowed db.db (bytePtr key))
    copyBorrowed r.out.val r.out.valLen r.out.handle r.status r.cerr

def DB.Has (db : DB) (key : Bytes) : Code (Bool × Option GoError) :=
  if db.closed then pure (false, some (.bare .ErrClosed))
  else do
    let r : Handed UInt8 ← call (.regolith_db_has db.db (bytePtr key))
    match ← statusToErr r.status r.cerr with
    | some err => pure (false, some err)
    | none => pure (r.out != 0, none)

def DB.Set (db : DB) (key value : Bytes) : Code (Option GoError) :=
  if db.closed then pure (some (.bare .ErrClosed))
  else do
    let r : Handed Unit ← call (.regolith_db_set db.db (bytePtr key) (bytePtr value))
    statusToErr r.status r.cerr

def DB.Delete (db : DB) (key : Bytes) : Code (Option GoError) :=
  if db.closed then pure (some (.bare .ErrClosed))
  else do
    let r : Handed Unit ← call (.regolith_db_delete db.db (bytePtr key))
    statusToErr r.status r.cerr

def DB.Write (db : DB) (b : Option WriteBatch) : Code (Option GoError) :=
  if db.closed then pure (some (.bare .ErrClosed))
  else
    match b with
    | none => pure none
    | some batch =>
        if batch.n = 0 then pure none
        else do
          let r : Handed Unit ← call (.regolith_db_write db.db (bytePtr batch.buf))
          statusToErr r.status r.cerr

def DB.DropAll (db : DB) : Code (Option GoError) :=
  if db.closed then pure (some (.bare .ErrClosed))
  else do
    let r : Handed Unit ← call (.regolith_db_drop_all db.db)
    statusToErr r.status r.cerr

def DB.Close (db : DB) : Code (Option GoError × DB) :=
  if db.closed then pure (none, db)
  else do
    let r : Handed Unit ← call (.regolith_db_close db.db)
    return (← statusToErr r.status r.cerr, { db with closed := true })

-- How either `NewIter` goes on, with the options it frees when it returns.
def openIter (opts : IterOptions) (cross : iterOptions → Code (Handed Ptr)) :
    Code (Option Iter × Option GoError) := do
  let cOpts ← newIterOptions opts
  Code.defer cOpts.free do
    let r ← cross cOpts
    match ← statusToErr r.status r.cerr with
    | some err => pure (none, some err)
    | none => pure (some (.opened r.out opts), none)

def DB.NewIter (db : DB) (opts : IterOptions) : Code (Option Iter × Option GoError) :=
  if db.closed then pure (none, some (.bare .ErrClosed))
  else openIter opts fun cOpts => call (.regolith_db_iter db.db cOpts)

def DB.NewTxn (db : DB) (readOnly : Bool) : Code (Option Txn × Option GoError) :=
  if db.closed then pure (none, some (.bare .ErrClosed))
  else do
    let r : Handed Ptr ← call (.regolith_db_txn db.db (cBool readOnly))
    match ← statusToErr r.status r.cerr with
    | some err => pure (none, some err)
    | none => pure (some ⟨r.out, db.closed, false⟩, none)

namespace Txn

def begin (t : Txn) : Option GoError :=
  if t.db_closed then some (.bare .ErrClosed)
  else if t.resolved then some (.bare .ErrDiscarded)
  else none

def Get (t : Txn) (key : Bytes) : Code (Option Bytes × Option GoError) :=
  match t.begin with
  | some err => pure (none, some err)
  | none => do
      let r : Handed ValueOut ← call (.regolith_txn_get_borrowed t.t (bytePtr key))
      copyBorrowed r.out.val r.out.valLen r.out.handle r.status r.cerr

def Has (t : Txn) (key : Bytes) : Code (Bool × Option GoError) :=
  match t.begin with
  | some err => pure (false, some err)
  | none => do
      let r : Handed UInt8 ← call (.regolith_txn_has t.t (bytePtr key))
      match ← statusToErr r.status r.cerr with
      | some err => pure (false, some err)
      | none => pure (r.out != 0, none)

def Set (t : Txn) (key value : Bytes) : Code (Option GoError) :=
  match t.begin with
  | some err => pure (some err)
  | none => do
      let r : Handed Unit ← call (.regolith_txn_set t.t (bytePtr key) (bytePtr value))
      statusToErr r.status r.cerr

def Delete (t : Txn) (key : Bytes) : Code (Option GoError) :=
  match t.begin with
  | some err => pure (some err)
  | none => do
      let r : Handed Unit ← call (.regolith_txn_delete t.t (bytePtr key))
      statusToErr r.status r.cerr

def NewIter (t : Txn) (opts : IterOptions) : Code (Option Iter × Option GoError) :=
  match t.begin with
  | some err => pure (none, some err)
  | none => openIter opts fun cOpts => call (.regolith_txn_iter t.t cOpts)

def Commit (t : Txn) : Code (Option GoError × Txn) :=
  if t.resolved then pure (some (.bare .ErrDiscarded), t)
  else if t.db_closed then pure (some (.bare .ErrClosed), t)
  else do
    let r : Handed Unit ← call (.regolith_txn_commit t.t)
    let t := { t with resolved := true, t := none }
    return (← statusToErr r.status r.cerr, t)

def Discard (t : Txn) : Code Txn :=
  if t.resolved then pure t
  else do
    let _ ← call (.regolith_txn_free t.t)
    pure { t with resolved := true, t := none }

end Txn

namespace Iter

def refill (it : Iter) : Code ((Bool × Option GoError) × Iter) := do
  let r : Handed BatchOut ← call (.regolith_iter_next_batch it.i batchEntries)
  let it := { it with ents := [], pos := 0 }
  match ← takeBuf r.out.out r.out.outLen r.status r.cerr with
  | (_, some err) => pure ((false, some err), it)
  | (frame, none) =>
      if r.out.count = 0 then pure ((false, none), { it with done := true })
      else
        let it := { it with buf := frame }
        let ents ← Code.ofExcept (parse frame frame.length 0 [])
        pure ((true, none), { it with ents := ents })

def Next (it : Iter) : Code ((Bool × Option GoError) × Iter) :=
  if it.db_closed then pure ((false, some (.bare .ErrClosed)), it)
  else if it.pos + 1 < it.ents.length then pure ((true, none), { it with pos := it.pos + 1 })
  else if it.done then pure ((false, none), { it with pos := it.ents.length })
  else it.refill

def invalidate (it : Iter) : Iter :=
  { it with ents := [], pos := 0, done := false }

def Seek (it : Iter) (key : Bytes) : Code ((Bool × Option GoError) × Iter) :=
  if it.db_closed then pure ((false, some (.bare .ErrClosed)), it)
  else do
    let it := it.invalidate
    let r : Handed UInt8 ← call (.regolith_iter_seek it.i (bytePtr key))
    match ← statusToErr r.status r.cerr with
    | some err => pure ((false, some err), it)
    | none =>
        if r.out = 0 then pure ((false, none), { it with done := true })
        else it.refill

def Reset (it : Iter) : Code Iter := do
  let it := it.invalidate
  let _ ← call (.regolith_iter_reset it.i)
  pure it

def Key (it : Iter) : Code (Option Bytes) :=
  match it.ents[it.pos]? with
  | none => pure none
  | some e => Code.ofExcept ((slice it.buf e.kOff (e.kOff + e.kLen)).map some)

def Value (it : Iter) : Code (Option Bytes × Option GoError) :=
  if it.keysOnly ∨ it.ents.length ≤ it.pos then pure (none, none)
  else do
    let r : Handed Bytes ← call (.regolith_iter_batch_value it.i it.pos)
    match ← statusToErr r.status r.cerr with
    | some err => pure (none, some err)
    | none =>
        if r.out.length = 0 then pure (none, none)
        else
          let bytes ← Code.ofExcept (Go.GoBytes r.out (.ofNat r.out.length))
          pure (some bytes, none)

-- `fn` may change what it has captured, `s`. The calls it makes are calls of their own.
def borrowValue {ρ : Type} (it : Iter)
    (fn : Option Bytes → ρ → Except Crash (Option GoError) × ρ) (s : ρ) :
    Code (Option GoError × ρ) :=
  let run (value : Option Bytes) : Code (Option GoError × ρ) :=
    Code.ofExcept ((fn value s).1.map fun err => (err, (fn value s).2))
  if it.keysOnly ∨ it.ents.length ≤ it.pos then run none
  else do
    let r : Handed Bytes ← call (.regolith_iter_batch_value it.i it.pos)
    match ← statusToErr r.status r.cerr with
    | some err => pure (some err, s)
    | none => if r.out.length = 0 then run none else run (some r.out)

def BorrowValue {ρ : Type} (it : Iter)
    (fn : Option Bytes → ρ → Except Crash (Option GoError) × ρ) (s : ρ) :
    Code (Option GoError × ρ) :=
  it.borrowValue fn s

def AppendValue (it : Iter) (dst : Bytes) : Code (Bytes × Option GoError) := do
  match ← it.borrowValue (fun value dst => (.ok none, dst ++ value.getD [])) dst with
  | (some err, _) => pure ([], some err)
  | (none, dst) => pure (dst, none)

def Close (it : Iter) : Code (Option GoError × Iter) :=
  if it.closed then pure (none, it)
  else do
    let r : Handed Unit ← call (.regolith_iter_close it.i)
    return (← statusToErr r.status r.cerr, { it with closed := true })

inductive Method where
  | Next
  | Seek (key : Bytes)
  | Reset
  | Key
  | Value
  | BorrowValue (fn : Option Bytes → Except Crash (Option GoError))
  | AppendValue (dst : Bytes)
  | Close

end Iter

inductive Method where
  | OpenWith (path : Bytes) (opts : Options)
  | DB (db : DB) (m : Shared.DB.Method)
  | Txn (t : Txn) (m : Shared.Txn.Method)
  | Iter (it : Iter) (m : Iter.Method)

-- What a method does, for the error it returns: none where it returns no error.
def Method.body : Method → Code (Option GoError)
  | .OpenWith path opts => return (← Lent.OpenWith path opts).2
  | .DB db (.Get key) => return (← db.Get key).2
  | .DB db (.Has key) => return (← db.Has key).2
  | .DB db (.Set key value) => db.Set key value
  | .DB db (.Delete key) => db.Delete key
  | .DB db (.Write b) => db.Write b
  | .DB db .DropAll => db.DropAll
  | .DB db (.NewIter opts) => return (← db.NewIter opts).2
  | .DB db (.NewTxn readOnly) => return (← db.NewTxn readOnly).2
  | .DB db .Close => return (← db.Close).1
  | .Txn t (.Get key) => return (← t.Get key).2
  | .Txn t (.Has key) => return (← t.Has key).2
  | .Txn t (.Set key value) => t.Set key value
  | .Txn t (.Delete key) => t.Delete key
  | .Txn t (.NewIter opts) => return (← t.NewIter opts).2
  | .Txn t .Commit => return (← t.Commit).1
  | .Txn t .Discard => do
      let _ ← t.Discard
      return none
  | .Iter it .Next => return (← it.Next).1.2
  | .Iter it (.Seek key) => return (← it.Seek key).1.2
  | .Iter it .Reset => do
      let _ ← it.Reset
      return none
  | .Iter it .Key => do
      let _ ← it.Key
      return none
  | .Iter it .Value => return (← it.Value).2
  | .Iter it (.BorrowValue fn) => return (← it.BorrowValue (fun value s => (fn value, s)) ()).1
  | .Iter it (.AppendValue dst) => return (← it.AppendValue dst).2
  | .Iter it .Close => return (← it.Close).1

end Regolith.Go.Lent
