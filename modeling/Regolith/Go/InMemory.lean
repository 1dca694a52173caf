import Regolith.Go.Iter.Plain
import Regolith.Library.Memory

-- `WriteBatch` (`batch.go`) and `Iter` (`iter.go`) in memory: their buffers are slices, and so
-- are the keys and values that they take or hand out. `grow` is how the runtime rounds up the
-- room of a new array.
namespace Regolith.Go.InMemory

open Ffi Memory

abbrev Mem := Heap UInt8

structure WriteBatch where
  buf : Slice
  n : Nat

section WriteBatch

variable (grow : Nat → Nat → Nat)

def appendField (h : Mem) (buf field : Slice) : Slice × Mem :=
  let (buf, h) := buf.append grow h (Radix.toLE 8 field.len)
  buf.append grow h (field.read h)

namespace WriteBatch

def zero : WriteBatch := ⟨.nil, 0⟩

def NewWriteBatch (h : Mem) (sizeHint : Int) : WriteBatch × Mem :=
  let (buf, h) := h.make [] (max sizeHint 0).toNat
  (⟨buf, 0⟩, h)

def Set (h : Mem) (b : WriteBatch) (key value : Slice) : WriteBatch × Mem :=
  let (buf, h) := b.buf.append grow h [opSet]
  let (buf, h) := appendField grow h buf key
  let (buf, h) := appendField grow h buf value
  (⟨buf, b.n + 1⟩, h)

def Delete (h : Mem) (b : WriteBatch) (key : Slice) : WriteBatch × Mem :=
  let (buf, h) := b.buf.append grow h [opDelete]
  let (buf, h) := appendField grow h buf key
  (⟨buf, b.n + 1⟩, h)

def Reset (b : WriteBatch) : WriteBatch := ⟨{ b.buf with len := 0 }, 0⟩

-- The batch that is in memory.
def value (h : Mem) (b : WriteBatch) : Go.WriteBatch := ⟨b.buf.read h, b.n⟩

end WriteBatch

end WriteBatch

structure Iter (σ : Type) where
  db_closed : Bool
  i : RegolithIter σ
  keysOnly : Bool
  buf : Slice
  ents : List entry
  pos : Nat
  done : Bool

section Iter

-- `C.GoBytes`, which makes an array of just that length.
def GoBytes (h : Mem) (bytes : Bytes) (n : Int32) : Except Crash Slice × Mem :=
  if n.toInt < 0 then (.error (.panic "gobytes: length out of range"), h)
  else
    let (s, h) := h.make (bytes.take n.toInt.toNat) 0
    (.ok s, h)

def takeBuf (h : Mem) (bytes : Bytes) (status : Status) (detail : Option String) :
    Except Crash (Slice × Option GoError) × Mem :=
  match statusToErr status detail with
  | some err => (.ok (.nil, some err), h)
  | none =>
      if bytes.length = 0 then (.ok (.nil, none), h)
      else
        let (s, h) := GoBytes h bytes (.ofNat bytes.length)
        (s.map (·, none), h)

-- `buf[lo:hi]`.
def slice (buf : Slice) (lo hi : Int32) : Except Crash Slice :=
  if 0 ≤ lo.toInt ∧ lo.toInt ≤ hi.toInt ∧ hi.toInt ≤ buf.cap then
    .ok (buf.window lo.toInt.toNat hi.toInt.toNat)
  else .error (.panic "slice bounds out of range")

namespace Iter

variable {σ : Type} [EntrySource σ]

def refill (h : Mem) (it : Iter σ) : Except Crash (Bool × Option GoError) × Iter σ × Mem :=
  let (reply, i) :=
    regolith_iter_next_batch it.i batchEntries .writable .writable .writable .writable
  let out := reply.out.getD ⟨[], 0⟩
  let it := { it with i := i, ents := [], pos := 0 }
  match takeBuf h out.frame reply.status reply.err with
  | (.error crash, h) => (.error crash, it, h)
  | (.ok (_, some err), h) => (.ok (false, some err), it, h)
  | (.ok (frame, none), h) =>
      if out.count = 0 then (.ok (false, none), { it with done := true }, h)
      else
        let it := { it with buf := frame }
        match parse (frame.read h) frame.len 0 [] with
        | .error crash => (.error crash, it, h)
        | .ok ents => (.ok (true, none), { it with ents := ents }, h)

def Next (h : Mem) (it : Iter σ) : Except Crash (Bool × Option GoError) × Iter σ × Mem :=
  if it.db_closed then (.ok (false, some (.bare .ErrClosed)), it, h)
  else if it.pos + 1 < it.ents.length then (.ok (true, none), { it with pos := it.pos + 1 }, h)
  else if it.done then (.ok (false, none), { it with pos := it.ents.length }, h)
  else it.refill h

def invalidate (it : Iter σ) : Iter σ :=
  { it with ents := [], pos := 0, done := false }

def Seek (h : Mem) (it : Iter σ) (key : Bytes) :
    Except Crash (Bool × Option GoError) × Iter σ × Mem :=
  if it.db_closed then (.ok (false, some (.bare .ErrClosed)), it, h)
  else
    let it := it.invalidate
    let (reply, i) := regolith_iter_seek it.i (bytePtr key) .writable .writable
    let it := { it with i := i }
    match statusToErr reply.status reply.err with
    | some err => (.ok (false, some err), it, h)
    | none =>
        if reply.out.getD false = false then (.ok (false, none), { it with done := true }, h)
        else it.refill h

def Reset (it : Iter σ) : Iter σ :=
  let it := it.invalidate
  { it with i := (regolith_iter_reset it.i .null).2 }

-- `none` is nil.
def Key (it : Iter σ) : Except Crash (Option Slice) :=
  match it.ents[it.pos]? with
  | none => .ok none
  | some e => (slice it.buf e.kOff (e.kOff + e.kLen)).map some

def Value (h : Mem) (it : Iter σ) : Except Crash (Option Slice × Option GoError) × Mem :=
  if it.keysOnly ∨ it.ents.length ≤ it.pos then (.ok (none, none), h)
  else
    let reply := regolith_iter_batch_value it.i it.pos .writable .writable .writable
    match statusToErr reply.status reply.err with
    | some err => (.ok (none, some err), h)
    | none =>
        let val := (reply.out.getD none).getD []
        if val.length = 0 then (.ok (none, none), h)
        else
          let (s, h) := GoBytes h val (.ofNat val.length)
          (s.map (some ·, none), h)

def opened (i : RegolithIter σ) (opts : IterOptions) : Iter σ :=
  ⟨false, i, opts.KeysOnly, .nil, [], 0, false⟩

end Iter

-- A call of an iterator: what it answers, the slice that it hands out, if any, and what it
-- leaves.
structure Called (σ : Type) where
  outcome : Outcome
  handed : Option Slice
  it : Iter σ
  mem : Mem

def Iter.call {σ : Type} [EntrySource σ] (h : Mem) (it : Iter σ) : CursorCall → Called σ
  | .Next =>
      let (result, it, h) := it.Next h
      ⟨.moved result, none, it, h⟩
  | .Seek target =>
      let (result, it, h) := it.Seek h target
      ⟨.moved result, none, it, h⟩
  | .Reset => ⟨.reset, none, it.Reset, h⟩
  | .Key =>
      let key := it.Key
      ⟨.key (key.map (·.map (·.read h))), key.toOption.join, it, h⟩
  | .Value =>
      let (result, h) := it.Value h
      ⟨.value (result.map fun (value, err) => (value.map (·.read h), err)),
        result.toOption.bind (·.1), it, h⟩

end Iter

-- Code that uses some batches and iterators, and has slices: its own, and those that an
-- iterator has handed out.
structure Client (σ : Type) extends Holder UInt8 where
  batches : List WriteBatch
  iters : List (Iter σ)

inductive Step (σ : Type) where
  | own (m : Move UInt8)
  | zero
  | NewWriteBatch (sizeHint : Int)
  | Set (b key value : Nat)
  | Delete (b key : Nat)
  | Reset (b : Nat)
  | NewIter (i : RegolithIter σ) (opts : IterOptions)
  | iter (i : Nat) (call : CursorCall)

section Client

variable {σ : Type}

-- The batch that a step calls.
def Step.on : Step σ → Option Nat
  | .Set i _ _ | .Delete i _ | .Reset i => some i
  | _ => none

namespace Client

def first : Client σ := ⟨⟨[], []⟩, [], []⟩

-- A step that Go would not let happen does nothing.
def step [EntrySource σ] (grow : Nat → Nat → Nat) (c : Client σ) : Step σ → Client σ
  | .own m => { c with toHolder := c.toHolder.step grow m }
  | .zero => { c with batches := c.batches ++ [.zero] }
  | .NewWriteBatch sizeHint =>
      let (b, mem) := WriteBatch.NewWriteBatch c.mem sizeHint
      { c with mem := mem, batches := c.batches ++ [b] }
  | .Set i key value =>
      match c.batches[i]?, c.slices[key]?, c.slices[value]? with
      | some b, some key, some value =>
          let (b, mem) := b.Set grow c.mem key value
          { c with mem := mem, batches := c.batches.set i b }
      | _, _, _ => c
  | .Delete i key =>
      match c.batches[i]?, c.slices[key]? with
      | some b, some key =>
          let (b, mem) := b.Delete grow c.mem key
          { c with mem := mem, batches := c.batches.set i b }
      | _, _ => c
  | .Reset i =>
      match c.batches[i]? with
      | some b => { c with batches := c.batches.set i b.Reset }
      | none => c
  | .NewIter i opts => { c with iters := c.iters ++ [.opened i opts] }
  | .iter i call =>
      match c.iters[i]? with
      | some it =>
          let called := it.call c.mem call
          { c with
            mem := called.mem
            slices := c.slices ++ called.handed.toList
            iters := c.iters.set i called.it }
      | none => c

-- The call that a step makes of a batch, with what its arguments hold at the time.
def call (c : Client σ) (i : Nat) : Step σ → Option BatchCall
  | .Set j key value =>
      match c.batches[j]?, c.slices[key]?, c.slices[value]? with
      | some _, some key, some value =>
          if j = i then some (.Set (key.read c.mem) (value.read c.mem)) else none
      | _, _, _ => none
  | .Delete j key =>
      match c.batches[j]?, c.slices[key]? with
      | some _, some key => if j = i then some (.Delete (key.read c.mem)) else none
      | _, _ => none
  | .Reset j =>
      match c.batches[j]? with
      | some _ => if j = i then some .Reset else none
      | none => none
  | _ => none

-- The array that the code itself writes to in a step.
def writes (c : Client σ) : Step σ → Option Nat
  | .own m => c.toHolder.writes m
  | _ => none

-- What batch `i` holds: nothing, while there is none.
def held (c : Client σ) (i : Nat) : Go.WriteBatch :=
  match c.batches[i]? with
  | some b => b.value c.mem
  | none => .zero

section Runs

variable [EntrySource σ] (grow : Nat → Nat → Nat)

def run (c : Client σ) (steps : List (Step σ)) : Client σ := steps.foldl (step grow) c

-- The calls made of batch `i`, in order.
def calls (c : Client σ) (i : Nat) : List (Step σ) → List BatchCall
  | [] => []
  | s :: steps => (c.call i s).toList ++ calls (c.step grow s) i steps

-- Batch `i` was made for `n` bytes, or has held as many before.
def Roomy (steps : List (Step σ)) (i n : Nat) : Prop :=
  (∃ front, front <+: steps ∧ n ≤ ((first.run grow front).held i).Size) ∨
    ∃ front sizeHint, front ++ [.NewWriteBatch sizeHint] <+: steps ∧
      (first.run grow front).batches.length = i ∧ (n : Int) ≤ sizeHint

end Runs

end Client

end Client

end Regolith.Go.InMemory
