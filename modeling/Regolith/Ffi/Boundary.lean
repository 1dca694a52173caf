import Regolith.Library.Radix

-- The conventions of the C boundary (`ffi/src/lib.rs`): status codes, the
-- failure that travels with one, panics caught at the edge, and raw arguments.
namespace Regolith

abbrev Bytes := List UInt8

namespace Ffi

abbrev Status := Int32

def OK : Status := 0
def NOT_FOUND : Status := 1
def DB_CLOSED : Status := 2
def TXN_CONFLICT : Status := 3
def READ_ONLY_TXN : Status := 4
def DISCARDED : Status := 5
def INVALID_ARG : Status := 6
def PANIC : Status := 7
def OTHER : Status := 8

-- The codes that are not their own message.
def HasDetail (status : Status) : Prop :=
  status = INVALID_ARG ∨ status = PANIC ∨ status = OTHER

instance (status : Status) : Decidable (HasDetail status) :=
  inferInstanceAs (Decidable (_ ∨ _))

structure Failure where
  status : Status
  detail : Option String
  deriving DecidableEq

namespace Failure

def code (status : Status) : Failure := ⟨status, none⟩
def invalid_arg (detail : String) : Failure := ⟨INVALID_ARG, some detail⟩
def other (detail : String) : Failure := ⟨OTHER, some detail⟩

end Failure

-- `regolith::Error`. Every variant that the boundary does not tell apart is
-- its display text.
inductive EngineError where
  | Closed
  | InvalidArgument (reason : String)
  | Other (display : String)
  deriving DecidableEq

def Failure.of_error : EngineError → Failure
  | .Closed => .code DB_CLOSED
  | .InvalidArgument reason => .invalid_arg reason
  | .Other display => .other display

-- `regolith::TransactionError`, with the display text of the variants that keep it.
inductive TransactionError where
  | Conflict
  | Busy
  | UnsupportedRangeDelete (display : String)
  | NoSavepoint (display : String)
  | Io (display : String)
  deriving DecidableEq

def Failure.of_transaction_error : TransactionError → Failure
  | .Conflict => .code TXN_CONFLICT
  | .Busy => .code TXN_CONFLICT
  | .UnsupportedRangeDelete display => .invalid_arg display
  | .NoSavepoint display => .invalid_arg display
  | .Io display => .other display

-- A panic payload: text from `panic!`, or a value that has none.
inductive Payload where
  | text (message : String)
  | other
  deriving DecidableEq

def panic_detail : Payload → String
  | .text message => message
  | .other => "unknown panic"

-- The two ways the body of an entry point ends without a result: it returns
-- `Err`, or it unwinds.
inductive Raised where
  | failure (failure : Failure)
  | panic (payload : Payload)
  deriving DecidableEq

-- A pointer the callee writes through.
inductive OutParam where
  | null
  | writable
  deriving DecidableEq

-- What a caller sees of one call: the status, the message behind `*err`, and
-- the other out-params, which are written on success only.
structure Reply (α : Type) where
  status : Status
  err : Option String
  out : Option α
  deriving DecidableEq

namespace RegolithError

def into_raw (detail : String) : String :=
  String.ofList (detail.toList.filter (· ≠ Char.ofNat 0))

end RegolithError

def guard {α : Type} (err : OutParam) (body : Except Raised α) : Reply α :=
  let slot := fun detail : Option String =>
    match err with
    | .null => none
    | .writable => detail.map RegolithError.into_raw
  match body with
  | .ok value => ⟨OK, slot none, some value⟩
  | .error (.failure failure) => ⟨failure.status, slot failure.detail, none⟩
  | .error (.panic payload) => ⟨PANIC, slot (some (panic_detail payload)), none⟩

def fail {α : Type} (failure : Failure) : Except Raised α :=
  .error (.failure failure)

-- Input bytes as they cross: a pointer, null or valid for `len` bytes.
structure InBytes where
  ptr : Option Bytes
  len : Nat

def in_bytes (input : InBytes) : Option Bytes :=
  if input.len = 0 then some [] else input.ptr.map (·.take input.len)

-- As `in_bytes`, with an empty range read as an absent one.
def in_opt_bytes (input : InBytes) : Option Bytes :=
  if input.len = 0 then none else input.ptr.map (·.take input.len)

def out_bytes (bytes : Bytes) (out_ptr out_len : OutParam) : Except Raised Bytes :=
  if out_ptr = .null ∨ out_len = .null then fail (.invalid_arg "null out-param") else .ok bytes

def out_bool (value : Bool) (out : OutParam) : Except Raised Bool :=
  if out = .null then fail (.invalid_arg "null out-param") else .ok value

-- A failure that says no more and no less than its code leaves to say.
def Failure.Agrees (failure : Failure) : Prop :=
  failure.status ≠ OK ∧ (failure.detail.isSome ↔ HasDetail failure.status)

def Raised.Agrees : Raised → Prop
  | .failure f => f.Agrees
  | .panic _ => True

namespace Failure

variable (detail : String)

theorem invalid_arg_agrees : (invalid_arg detail).Agrees :=
  ⟨(by decide : INVALID_ARG ≠ OK), iff_of_true rfl (.inl rfl)⟩

theorem other_agrees : (other detail).Agrees :=
  ⟨(by decide : OTHER ≠ OK), iff_of_true rfl (.inr (.inr rfl))⟩

theorem code_agrees {status : Status} (hstatus : status ≠ OK) (hdetail : ¬HasDetail status) :
    (code status).Agrees :=
  ⟨hstatus, by simp [code, hdetail]⟩

theorem of_error_agrees (error : EngineError) : (of_error error).Agrees := by
  cases error with
  | Closed => exact code_agrees (by decide) (by decide)
  | InvalidArgument reason => exact invalid_arg_agrees reason
  | Other display => exact other_agrees display

theorem of_transaction_error_agrees (error : TransactionError) :
    (of_transaction_error error).Agrees := by
  cases error with
  | Conflict | Busy => exact code_agrees (by decide) (by decide)
  | UnsupportedRangeDelete display | NoSavepoint display => exact invalid_arg_agrees display
  | Io display => exact other_agrees display

theorem discarded_agrees : (code DISCARDED).Agrees := code_agrees (by decide) (by decide)

theorem not_found_agrees : (code NOT_FOUND).Agrees := code_agrees (by decide) (by decide)

theorem read_only_agrees : (code READ_ONLY_TXN).Agrees := code_agrees (by decide) (by decide)

end Failure

@[simp] theorem guard_ok_status {α : Type} (err : OutParam) (value : α) :
    (guard err (.ok value)).status = OK := rfl

@[simp] theorem guard_ok_out {α : Type} (err : OutParam) (value : α) :
    (guard err (.ok value)).out = some value := rfl

@[simp] theorem guard_fail_status {α : Type} (err : OutParam) (failure : Failure) :
    (guard err (fail failure : Except Raised α)).status = failure.status := rfl

@[simp] theorem guard_fail_out {α : Type} (err : OutParam) (failure : Failure) :
    (guard err (fail failure : Except Raised α)).out = none := rfl

@[simp] theorem guard_fail_err {α : Type} (failure : Failure) :
    (guard .writable (fail failure : Except Raised α)).err =
      failure.detail.map RegolithError.into_raw := rfl

@[simp] theorem out_bool_writable (value : Bool) : out_bool value .writable = .ok value := rfl

@[simp] theorem out_bytes_writable (bytes : Bytes) :
    out_bytes bytes .writable .writable = .ok bytes := rfl

end Ffi

namespace Go

-- How a Go slice crosses (`bytePtr` and its length): empty is a nil pointer.
def bytePtr (bytes : Bytes) : Ffi.InBytes :=
  ⟨if bytes.length = 0 then none else some bytes, bytes.length⟩

@[simp] theorem in_bytes_bytePtr (bytes : Bytes) : Ffi.in_bytes (bytePtr bytes) = some bytes := by
  cases bytes <;> simp [Ffi.in_bytes, bytePtr]

theorem in_opt_bytes_bytePtr (bytes : Bytes) :
    Ffi.in_opt_bytes (bytePtr bytes) = if bytes = [] then none else some bytes := by
  cases bytes <;> simp [Ffi.in_opt_bytes, bytePtr]

end Go

end Regolith
