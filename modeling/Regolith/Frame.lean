import Regolith.Library.PrefixCode
import Regolith.Ffi.Batch
import Regolith.Go.WriteBatch

-- What the packer and the decoder have to agree on: the frame of an op list,
-- and the record the engine writes for it.
namespace Regolith.Frame

open Ffi Go

def add (b : WriteBatch) : RawOp → WriteBatch
  | .Set key value => b.Set key value
  | .Delete key => b.Delete key

-- The batch that the packer holds after these ops.
def batchOf (ops : List RawOp) : WriteBatch :=
  ops.foldl add .zero

def packed (ops : List RawOp) : Bytes :=
  (batchOf ops).buf

def op_frame : RawOp → Bytes
  | .Set key value =>
      opSet :: (Radix.toLE 8 key.length ++ key ++ (Radix.toLE 8 value.length ++ value))
  | .Delete key => opDelete :: (Radix.toLE 8 key.length ++ key)

-- Bytes of one op in the frame and in the engine's record.
def op_size : RawOp → Nat
  | .Set key value => 17 + key.length + value.length
  | .Delete key => 9 + key.length

def op_record : RawOp → Nat
  | .Set key value => 25 + key.length + value.length
  | .Delete key => 21 + key.length

def record_len (ops : List RawOp) : Nat :=
  4 + (ops.map op_record).sum

def isSet : RawOp → Bool
  | .Set _ _ => true
  | .Delete _ => false

-- Both fields have a length that eight bytes can hold.
def Fits : RawOp → Prop
  | .Set key value => key.length < 2 ^ 64 ∧ value.length < 2 ^ 64
  | .Delete key => key.length < 2 ^ 64

-- The decoder's reader, as a reader of bytes. It is never asked at the end.
def read_front (index : Nat) : Bytes → Except OpFault (RawOp × Bytes)
  | [] => .error ⟨index, .past_limit⟩
  | tag :: rest => read_op index tag rest

-- The reference decoder: one pass that charges every op, in unbounded
-- arithmetic, and builds the batch as it goes.
def reference_op (state : Nat × EngineBatch) (index : Nat) (op : RawOp) :
    Except OpFault (Nat × EngineBatch) :=
  let total := state.1 + op_record op
  if 2 ^ 30 < total then .error ⟨index, .past_limit⟩ else .ok (total, ⟨state.2.ops ++ [op]⟩)

def reference_decode (frame : Bytes) : Except OpFault EngineBatch :=
  (walk reference_op (4, .new) frame 0).map Prod.snd

-- A closure run over ops that were already read.
def runOps {σ : Type} (on_op : σ → Nat → RawOp → Except OpFault σ) (state : σ) (index : Nat) :
    List RawOp → Except OpFault σ
  | [] => .ok state
  | op :: ops =>
      match on_op state index op with
      | .error fault => .error fault
      | .ok state => runOps on_op state (index + 1) ops

end Regolith.Frame
