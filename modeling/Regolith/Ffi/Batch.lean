import Regolith.Ffi.Boundary

-- The write-batch frame decoder (`ffi/src/batch.rs`), on a 64-bit host.
namespace Regolith.Ffi

def OP_SET : UInt8 := 1
def OP_DELETE : UInt8 := 2

def MAX_BATCH_RECORD_LEN : UInt64 := (1 : UInt64) <<< 30
def BATCH_COUNT_LEN : UInt64 := 4
def SET_RECORD_OVERHEAD : UInt64 := 5 + 4 + 4 + 4 + 8
def DELETE_RECORD_OVERHEAD : UInt64 := 5 + 4 + 4 + 8
def MAX_FRAME_WITHOUT_SIZING : UInt64 := (MAX_BATCH_RECORD_LEN - BATCH_COUNT_LEN) * 3 / 7

def USIZE_MAX : Nat := 2 ^ 64 - 1

-- `key_len` and `value_len` are `u64`, and so are the sums: they wrap.
def set_record_len (key_len value_len : UInt64) : UInt64 :=
  SET_RECORD_OVERHEAD + key_len + value_len

def delete_record_len (key_len : UInt64) : UInt64 :=
  DELETE_RECORD_OVERHEAD + key_len

-- Why an op is refused, with the index that names it. `detail` is the text the
-- source formats, so a fault and the failure built from it say the same.
inductive Reason where
  | unknown_tag (tag : UInt8)
  | cut_in_length (what : String)
  | length_too_wide (what : String)
  | cut_inside (what : String)
  | past_limit
  deriving DecidableEq

structure OpFault where
  index : Nat
  reason : Reason
  deriving DecidableEq

def OpFault.detail (fault : OpFault) : String :=
  let index := fault.index
  match fault.reason with
  | .unknown_tag tag => s!"write batch op {index} has unknown tag {tag}"
  | .cut_in_length what => s!"write batch op {index} is cut off in its {what} length"
  | .length_too_wide what =>
      s!"write batch op {index} has a {what} length that does not fit in memory"
  | .cut_inside what => s!"write batch op {index} is cut off inside its {what}"
  | .past_limit =>
      s!"write batch op {index} would push this write batch past its {MAX_BATCH_RECORD_LEN}-byte limit; split it into smaller batches"

def OpFault.failure (fault : OpFault) : Failure :=
  .invalid_arg fault.detail

-- `u64::saturating_add`.
def saturating_add (a b : UInt64) : UInt64 :=
  if a.toNat + b.toNat < 2 ^ 64 then a + b else UInt64.ofNat (2 ^ 64 - 1)

structure RecordLen where
  total : UInt64

namespace RecordLen

def new : RecordLen := ⟨BATCH_COUNT_LEN⟩

def charge (record_len : RecordLen) (add : UInt64) (index : Nat) : Except OpFault RecordLen :=
  let next := saturating_add record_len.total add
  if next > MAX_BATCH_RECORD_LEN then .error ⟨index, .past_limit⟩ else .ok ⟨next⟩

end RecordLen

inductive RawOp where
  | Set (key value : Bytes)
  | Delete (key : Bytes)
  deriving DecidableEq

-- The engine's own batch: the ops put into it, in order.
structure EngineBatch where
  ops : List RawOp
  deriving DecidableEq

namespace EngineBatch

def new : EngineBatch := ⟨[]⟩
def put (batch : EngineBatch) (key value : Bytes) : EngineBatch := ⟨batch.ops ++ [.Set key value]⟩
def delete (batch : EngineBatch) (key : Bytes) : EngineBatch := ⟨batch.ops ++ [.Delete key]⟩

end EngineBatch

-- One `[u64 len][bytes]` field off the front of `rest`, with what follows it.
def field (rest : Bytes) (index : Nat) (what : String) : Except OpFault (Bytes × Bytes) :=
  if rest.length < 8 then .error ⟨index, .cut_in_length what⟩
  else
    let len := Radix.ofLE (rest.take 8)
    let tail := rest.drop 8
    -- dead on a 64-bit host
    if USIZE_MAX < len then .error ⟨index, .length_too_wide what⟩
    else if tail.length < len then .error ⟨index, .cut_inside what⟩
    else .ok (tail.take len, tail.drop len)

-- The body of one iteration of `walk`, up to its call of `on_op`.
def read_op (index : Nat) (tag : UInt8) (rest : Bytes) : Except OpFault (RawOp × Bytes) :=
  if tag = OP_SET then
    match field rest index "key" with
    | .error fault => .error fault
    | .ok (key, rest) =>
        match field rest index "value" with
        | .error fault => .error fault
        | .ok (value, rest) => .ok (.Set key value, rest)
  else if tag = OP_DELETE then
    match field rest index "key" with
    | .error fault => .error fault
    | .ok (key, rest) => .ok (.Delete key, rest)
  else .error ⟨index, .unknown_tag tag⟩

theorem length_field {rest bytes tail : Bytes} {index : Nat} {what : String}
    (h : field rest index what = .ok (bytes, tail)) : tail.length ≤ rest.length := by
  simp only [field] at h
  split_ifs at h
  cases h
  simp only [List.length_drop]
  omega

theorem length_read_op {index : Nat} {tag : UInt8} {rest tail : Bytes} {op : RawOp}
    (h : read_op index tag rest = .ok (op, tail)) : tail.length ≤ rest.length := by
  unfold read_op at h
  split_ifs at h
  · cases hkey : field rest index "key" with
    | error fault => simp [hkey] at h
    | ok pair =>
        cases hvalue : field pair.2 index "value" with
        | error fault => simp [hkey, hvalue] at h
        | ok pair' =>
            simp only [hkey, hvalue, Except.ok.injEq, Prod.mk.injEq] at h
            obtain ⟨-, rfl⟩ := h
            exact (length_field hvalue).trans (length_field hkey)
  · cases hkey : field rest index "key" with
    | error fault => simp [hkey] at h
    | ok pair =>
        simp only [hkey, Except.ok.injEq, Prod.mk.injEq] at h
        obtain ⟨-, rfl⟩ := h
        exact length_field hkey

-- `on_op` is the source's closure, with the state it captures passed explicitly.
def walk {σ : Type} (on_op : σ → Nat → RawOp → Except OpFault σ) (state : σ) (rest : Bytes)
    (index : Nat) : Except OpFault σ :=
  match rest with
  | [] => .ok state
  | tag :: tail =>
      match _ : read_op index tag tail with
      | .error fault => .error fault
      | .ok (op, after) =>
          match on_op state index op with
          | .error fault => .error fault
          | .ok state => walk on_op state after (index + 1)
termination_by rest.length
decreasing_by exact Nat.lt_succ_of_le (length_read_op ‹_›)

-- The closure of the sizing pass.
def charge_op (record_len : RecordLen) (index : Nat) (op : RawOp) : Except OpFault RecordLen :=
  let add :=
    match op with
    | .Set key value => set_record_len (UInt64.ofNat key.length) (UInt64.ofNat value.length)
    | .Delete key => delete_record_len (UInt64.ofNat key.length)
  record_len.charge add index

-- The closure of the build pass.
def build_op (batch : EngineBatch) (_ : Nat) (op : RawOp) : Except OpFault EngineBatch :=
  match op with
  | .Set key value => .ok (batch.put key value)
  | .Delete key => .ok (batch.delete key)

def build (frame : Bytes) : Except OpFault EngineBatch :=
  walk build_op .new frame 0

def decode (frame : Bytes) : Except OpFault EngineBatch :=
  if UInt64.ofNat frame.length > MAX_FRAME_WITHOUT_SIZING then
    match walk charge_op .new frame 0 with
    | .error fault => .error fault
    | .ok _ => build frame
  else build frame

end Regolith.Ffi
