import Regolith.Go.Iter.Parse
import Regolith.Library.Goroutine

-- What the methods that goroutines share hand back (`regolith.go`).
namespace Regolith.Go.Shared

open Ffi

inductive Value (σ : Type) where
  | bytes (value : Option Bytes)
  | found (found : Bool)
  | iter (it : Iter σ)
  | txn
  | nothing

abbrev Answer (σ : Type) := Except Crash (Except GoError (Value σ))

variable {σ : Type}

def refuse (sentinel : Sentinel) : Answer σ := .ok (.error (.bare sentinel))

-- `return statusToErr(status, cerr)`, and `return value, nil` where that is nil.
def checked {α : Type} (reply : Reply α) (value : Option α → Value σ) : Answer σ :=
  match statusToErr reply.status reply.err with
  | some err => .ok (.error err)
  | none => .ok (.ok (value reply.out))

-- The error that a failure of the boundary comes to.
def reported (raised : Raised) : Option GoError :=
  let r := guard .writable (.error raised : Except Raised Unit)
  statusToErr r.status r.err

-- Without the release of the value's own handle.
def copyBorrowed (reply : Reply Borrowed) : Answer σ :=
  match statusToErr reply.status reply.err with
  | some err => .ok (.error err)
  | none =>
      let val := (reply.out.map (·.bytes)).getD []
      if val.length = 0 then .ok (.ok (.bytes none))
      else (GoBytes val (.ofNat val.length)).map fun bytes => .ok (.bytes (some bytes))

-- The copy of what was found, of as many bytes as a `C.int` counts.
def copied (value : Bytes) : Answer σ :=
  if value = [] then .ok (.ok (.bytes none))
  else if value.length % 2 ^ 32 < 2 ^ 31 then
    .ok (.ok (.bytes (some (value.take (value.length % 2 ^ 32)))))
  else .error (.panic "gobytes: length out of range")

theorem copyBorrowed_ok {reply : Reply Borrowed} {value : Bytes}
    (hok : statusToErr reply.status reply.err = none)
    (hvalue : (reply.out.map (·.bytes)).getD [] = value) :
    (copyBorrowed reply : Answer σ) = copied value := by
  simp only [copyBorrowed, copied, hok, hvalue, GoBytes_narrowed, List.length_eq_zero_iff]
  split_ifs <;> rfl

end Regolith.Go.Shared
