import Regolith.Ffi.Batch

-- Engine options as they cross the boundary (`ffi/src/options.rs`), on a 64-bit host.
namespace Regolith.Ffi

def OPT_WRITE_BUFFER_SIZE : UInt64 := (1 : UInt64) <<< 0
def OPT_BLOCK_CACHE_SIZE : UInt64 := (1 : UInt64) <<< 1
def OPT_MAX_BACKGROUND_COMPACTIONS : UInt64 := (1 : UInt64) <<< 2
def OPT_TRANSACTION_KEYS_INLINE : UInt64 := (1 : UInt64) <<< 3
def OPT_COMPRESSION : UInt64 := (1 : UInt64) <<< 4
def OPT_DURABILITY : UInt64 := (1 : UInt64) <<< 5
def OPT_ISOLATION : UInt64 := (1 : UInt64) <<< 6

def OPT_KNOWN : UInt64 :=
  OPT_WRITE_BUFFER_SIZE ||| OPT_BLOCK_CACHE_SIZE ||| OPT_MAX_BACKGROUND_COMPACTIONS |||
    OPT_TRANSACTION_KEYS_INLINE ||| OPT_COMPRESSION ||| OPT_DURABILITY ||| OPT_ISOLATION

def COMPRESSION_NONE : UInt32 := 0
def COMPRESSION_SNAPPY : UInt32 := 1
def COMPRESSION_LZ4 : UInt32 := 2

def DURABILITY_IMMEDIATE : UInt32 := 0
def DURABILITY_EVENTUAL : UInt32 := 1

def ISOLATION_READ_COMMITTED : UInt32 := 0
def ISOLATION_SNAPSHOT : UInt32 := 1
def ISOLATION_SERIALIZABLE : UInt32 := 2
def ISOLATION_REPEATABLE_READ : UInt32 := 3

-- A field is read only when its bit is set in `present`.
structure RegolithOptions where
  present : UInt64
  write_buffer_size : UInt64
  block_cache_size : UInt64
  max_background_compactions : UInt64
  transaction_keys_inline : UInt64
  compression : UInt32
  durability : UInt32
  isolation : UInt32
  deriving DecidableEq

inductive CompressionType where
  | None
  | Snappy
  | Lz4
  deriving DecidableEq

inductive DurabilityMode where
  | Immediate
  | Eventual
  deriving DecidableEq

inductive IsolationLevel where
  | ReadCommitted
  | SnapshotIsolation
  | Serializable
  | RepeatableRead
  deriving DecidableEq

-- `regolith::Options`: the fields that can be reached, and all the others.
structure Options (R : Type) where
  write_buffer_size : Nat
  block_cache_size : Nat
  max_background_compactions : Nat
  transaction_keys_inline : Nat
  compression : CompressionType
  durability : DurabilityMode
  rest : R

structure ResolvedOptions (R : Type) where
  engine : Options R
  isolation : IsolationLevel

def as_usize (name : String) (value : UInt64) : Except Failure Nat :=
  if value.toNat ≤ USIZE_MAX then .ok value.toNat
  else
    .error (.invalid_arg
      s!"invalid option `{name}`: {value} does not fit in a usize on this platform")

-- `{unknown:#x}`.
def hex (bits : UInt64) : String :=
  "0x" ++ String.ofList (Nat.toDigits 16 bits.toNat)

def compressions : List (UInt32 × CompressionType) :=
  [(COMPRESSION_NONE, .None), (COMPRESSION_SNAPPY, .Snappy), (COMPRESSION_LZ4, .Lz4)]

def durabilities : List (UInt32 × DurabilityMode) :=
  [(DURABILITY_IMMEDIATE, .Immediate), (DURABILITY_EVENTUAL, .Eventual)]

def isolations : List (UInt32 × IsolationLevel) :=
  [(ISOLATION_READ_COMMITTED, .ReadCommitted), (ISOLATION_SNAPSHOT, .SnapshotIsolation),
    (ISOLATION_SERIALIZABLE, .Serializable), (ISOLATION_REPEATABLE_READ, .RepeatableRead)]

-- The `match` over a discriminant: its arms, and the detail of the last one.
def match_enum {α : Type} (arms : List (UInt32 × α)) (other : UInt32) (detail : String) :
    Except Failure α :=
  match arms.lookup other with
  | some value => .ok value
  | none => .error (.invalid_arg detail)

section Resolve

variable {R : Type}

-- `if opts.present & bit != 0 { .. }`, where the block may return early.
def if_present {α : Type} (opts : RegolithOptions) (bit : UInt64) (value : Except Failure α)
    (set : α → ResolvedOptions R → ResolvedOptions R) (resolved : ResolvedOptions R) :
    Except Failure (ResolvedOptions R) :=
  if opts.present &&& bit ≠ 0 then value.map (set · resolved) else .ok resolved

-- `defaults` is `ResolvedOptions::default()`, and `opts` a pointer that may be null.
def options_from (defaults : ResolvedOptions R) (opts : Option RegolithOptions) :
    Except Failure (ResolvedOptions R) :=
  match opts with
  | none => .ok defaults
  | some opts =>
      let unknown := opts.present &&& ~~~OPT_KNOWN
      if unknown ≠ 0 then
        .error (.invalid_arg s!"invalid option `present`: unknown presence bits {hex unknown}")
      else do
        let resolved ← if_present opts OPT_WRITE_BUFFER_SIZE
          (as_usize "write_buffer_size" opts.write_buffer_size)
          (fun value r => { r with engine.write_buffer_size := value }) defaults
        let resolved ← if_present opts OPT_BLOCK_CACHE_SIZE
          (as_usize "block_cache_size" opts.block_cache_size)
          (fun value r => { r with engine.block_cache_size := value }) resolved
        let resolved ← if_present opts OPT_MAX_BACKGROUND_COMPACTIONS
          (as_usize "max_background_compactions" opts.max_background_compactions)
          (fun value r => { r with engine.max_background_compactions := value }) resolved
        let resolved ← if_present opts OPT_TRANSACTION_KEYS_INLINE
          (as_usize "transaction_keys_inline" opts.transaction_keys_inline)
          (fun value r => { r with engine.transaction_keys_inline := value }) resolved
        let resolved ← if_present opts OPT_COMPRESSION
          (match_enum compressions opts.compression
            s!"invalid option `compression`: unknown codec {opts.compression}")
          (fun value r => { r with engine.compression := value }) resolved
        let resolved ← if_present opts OPT_DURABILITY
          (match_enum durabilities opts.durability
            s!"invalid option `durability`: unknown mode {opts.durability}")
          (fun value r => { r with engine.durability := value }) resolved
        if_present opts OPT_ISOLATION
          (match_enum isolations opts.isolation
            s!"invalid option `isolation`: unknown level {opts.isolation}")
          (fun value r => { r with isolation := value }) resolved

end Resolve

end Regolith.Ffi
