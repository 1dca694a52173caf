import Regolith.Ffi.Boundary

-- The frame packer of the Go binding (`batch.go`).
namespace Regolith.Go

def opSet : UInt8 := 1
def opDelete : UInt8 := 2

-- A slice is the bytes it holds. Its spare capacity, which is all that a size
-- hint changes, is read by nothing.
structure WriteBatch where
  buf : Bytes
  n : Nat
  deriving DecidableEq

def appendField (buf field : Bytes) : Bytes :=
  buf ++ Radix.toLE 8 field.length ++ field

namespace WriteBatch

def zero : WriteBatch := ⟨[], 0⟩

def NewWriteBatch (_sizeHint : Int) : WriteBatch := ⟨[], 0⟩

def Set (b : WriteBatch) (key value : Bytes) : WriteBatch :=
  let buf := b.buf ++ [opSet]
  let buf := appendField buf key
  let buf := appendField buf value
  ⟨buf, b.n + 1⟩

def Delete (b : WriteBatch) (key : Bytes) : WriteBatch :=
  let buf := b.buf ++ [opDelete]
  let buf := appendField buf key
  ⟨buf, b.n + 1⟩

def Len (b : WriteBatch) : Nat := b.n

def Size (b : WriteBatch) : Nat := b.buf.length

def Reset (_ : WriteBatch) : WriteBatch := ⟨[], 0⟩

end WriteBatch

end Regolith.Go
