import Regolith.Ffi.Engine

-- The range an iterator walks (`ffi/src/iter.rs`).
namespace Regolith.Ffi

structure RegolithIterOptions where
  pre : InBytes
  start : InBytes
  end_ : InBytes
  reverse : UInt8
  keys_only : UInt8

structure Bounds where
  start : Option Bytes
  end_ : Option Bytes
  reverse : Bool
  keys_only : Bool

namespace Bounds

def direction (b : Bounds) : ScanDirection :=
  if b.reverse then .Reverse else .Forward

def contains (b : Bounds) (key : Bytes) : Bool :=
  match b.start, b.end_ with
  | some start, some end_ => !decide (key < start) && !decide (end_ ≤ key)
  | some start, none => !decide (key < start)
  | none, some end_ => !decide (end_ ≤ key)
  | none, none => true

end Bounds

-- The loop of `prefix_end`, over the bytes left, last one first.
def pop_prefix_end : List UInt8 → Option Bytes
  | [] => none
  | last :: rest =>
      if last ≠ 0xff then some ((last + 1) :: rest).reverse else pop_prefix_end rest

def prefix_end (pre : Bytes) : Option Bytes :=
  pop_prefix_end pre.reverse

-- `opts` is a pointer, null meaning defaults.
def bounds_from (opts : Option RegolithIterOptions) : Bounds :=
  match opts with
  | none => ⟨none, none, false, false⟩
  | some opts =>
      let (start, end_) :=
        match in_opt_bytes opts.pre with
        | some pre => (some pre, prefix_end pre)
        | none => (in_opt_bytes opts.start, in_opt_bytes opts.end_)
      ⟨start, end_, opts.reverse ≠ 0, opts.keys_only ≠ 0⟩

end Regolith.Ffi
