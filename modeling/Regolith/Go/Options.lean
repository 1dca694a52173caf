import Regolith.Ffi.Options
import Regolith.Go.Errors

-- Engine options as a caller sets them (`options.go`).
namespace Regolith.Go

open Ffi

-- The header's constants (`ffi/include/regolith_ffi.h`).
def REGOLITH_OPT_WRITE_BUFFER_SIZE : UInt64 := (1 : UInt64) <<< 0
def REGOLITH_OPT_BLOCK_CACHE_SIZE : UInt64 := (1 : UInt64) <<< 1
def REGOLITH_OPT_MAX_BACKGROUND_COMPACTIONS : UInt64 := (1 : UInt64) <<< 2
def REGOLITH_OPT_TRANSACTION_KEYS_INLINE : UInt64 := (1 : UInt64) <<< 3
def REGOLITH_OPT_COMPRESSION : UInt64 := (1 : UInt64) <<< 4
def REGOLITH_OPT_DURABILITY : UInt64 := (1 : UInt64) <<< 5
def REGOLITH_OPT_ISOLATION : UInt64 := (1 : UInt64) <<< 6

def REGOLITH_COMPRESSION_NONE : UInt32 := 0
def REGOLITH_COMPRESSION_SNAPPY : UInt32 := 1
def REGOLITH_COMPRESSION_LZ4 : UInt32 := 2

def REGOLITH_DURABILITY_IMMEDIATE : UInt32 := 0
def REGOLITH_DURABILITY_EVENTUAL : UInt32 := 1

def REGOLITH_ISOLATION_READ_COMMITTED : UInt32 := 0
def REGOLITH_ISOLATION_SNAPSHOT : UInt32 := 1
def REGOLITH_ISOLATION_SERIALIZABLE : UInt32 := 2
def REGOLITH_ISOLATION_REPEATABLE_READ : UInt32 := 3

abbrev Compression := UInt32

def CompressionDefault : Compression := 0
def CompressionNone : Compression := 1
def CompressionSnappy : Compression := 2
def CompressionLZ4 : Compression := 3

abbrev Durability := UInt32

def DurabilityDefault : Durability := 0
def DurabilityImmediate : Durability := 1
def DurabilityEventual : Durability := 2

abbrev Isolation := UInt32

def IsolationDefault : Isolation := 0
def IsolationReadCommitted : Isolation := 1
def IsolationSnapshot : Isolation := 2
def IsolationSerializable : Isolation := 3
def IsolationRepeatableRead : Isolation := 4

-- The numeric fields are pointers, nil meaning unset.
structure Options where
  WriteBufferSize : Option UInt64
  BlockCacheSize : Option UInt64
  MaxBackgroundCompactions : Option UInt64
  TransactionKeysInline : Option UInt64
  Compression : Compression
  Durability : Durability
  Isolation : Isolation

def optWriteBufferSize : UInt64 := REGOLITH_OPT_WRITE_BUFFER_SIZE
def optBlockCacheSize : UInt64 := REGOLITH_OPT_BLOCK_CACHE_SIZE
def optMaxBackgroundCompactions : UInt64 := REGOLITH_OPT_MAX_BACKGROUND_COMPACTIONS
def optTransactionKeysInline : UInt64 := REGOLITH_OPT_TRANSACTION_KEYS_INLINE
def optCompression : UInt64 := REGOLITH_OPT_COMPRESSION
def optDurability : UInt64 := REGOLITH_OPT_DURABILITY
def optIsolation : UInt64 := REGOLITH_OPT_ISOLATION

namespace Options

-- `if o.Field != nil { .. }`.
def ifSet (field : Option UInt64) (bit : UInt64) (set : UInt64 → RegolithOptions → RegolithOptions)
    (c : RegolithOptions) : RegolithOptions :=
  match field with
  | none => c
  | some value => set value { c with present := c.present ||| bit }

-- A `switch` over an enum: the member that leaves it unset, the constants of the others,
-- and the error of the default case, which is returned with `c` as it is.
def switch (field unset : UInt32) (cases : List (UInt32 × UInt32)) (bit : UInt64)
    (set : UInt32 → RegolithOptions → RegolithOptions) (detail : String) (c : RegolithOptions) :
    RegolithOptions × Option GoError :=
  if field = unset then (c, none)
  else
    match cases.lookup field with
    | some constant => (set constant { c with present := c.present ||| bit }, none)
    | none => (c, some ⟨.ErrInvalidArgument, detail⟩)

def numbersToC (o : Options) : RegolithOptions :=
  let c : RegolithOptions := ⟨0, 0, 0, 0, 0, 0, 0, 0⟩
  let c := ifSet o.WriteBufferSize optWriteBufferSize
    (fun value c => { c with write_buffer_size := value }) c
  let c := ifSet o.BlockCacheSize optBlockCacheSize
    (fun value c => { c with block_cache_size := value }) c
  let c := ifSet o.MaxBackgroundCompactions optMaxBackgroundCompactions
    (fun value c => { c with max_background_compactions := value }) c
  ifSet o.TransactionKeysInline optTransactionKeysInline
    (fun value c => { c with transaction_keys_inline := value }) c

def compressionCases : List (UInt32 × UInt32) :=
  [(CompressionNone, REGOLITH_COMPRESSION_NONE), (CompressionSnappy, REGOLITH_COMPRESSION_SNAPPY),
    (CompressionLZ4, REGOLITH_COMPRESSION_LZ4)]

def compressionToC (o : Options) : RegolithOptions → RegolithOptions × Option GoError :=
  switch o.Compression CompressionDefault compressionCases optCompression
    (fun constant c => { c with compression := constant })
    s!"invalid option `Compression`: unknown codec {o.Compression}"

def durabilityCases : List (UInt32 × UInt32) :=
  [(DurabilityImmediate, REGOLITH_DURABILITY_IMMEDIATE),
    (DurabilityEventual, REGOLITH_DURABILITY_EVENTUAL)]

def durabilityToC (o : Options) : RegolithOptions → RegolithOptions × Option GoError :=
  switch o.Durability DurabilityDefault durabilityCases optDurability
    (fun constant c => { c with durability := constant })
    s!"invalid option `Durability`: unknown mode {o.Durability}"

def isolationCases : List (UInt32 × UInt32) :=
  [(IsolationReadCommitted, REGOLITH_ISOLATION_READ_COMMITTED),
    (IsolationSnapshot, REGOLITH_ISOLATION_SNAPSHOT),
    (IsolationSerializable, REGOLITH_ISOLATION_SERIALIZABLE),
    (IsolationRepeatableRead, REGOLITH_ISOLATION_REPEATABLE_READ)]

def isolationToC (o : Options) : RegolithOptions → RegolithOptions × Option GoError :=
  switch o.Isolation IsolationDefault isolationCases optIsolation
    (fun constant c => { c with isolation := constant })
    s!"invalid option `Isolation`: unknown level {o.Isolation}"

def toC (o : Options) : RegolithOptions × Option GoError :=
  match o.compressionToC o.numbersToC with
  | (c, some err) => (c, some err)
  | (c, none) =>
      match o.durabilityToC c with
      | (c, some err) => (c, some err)
      | (c, none) => o.isolationToC c

end Options

end Regolith.Go
