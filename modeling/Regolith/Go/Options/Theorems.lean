import Regolith.Go.Options

-- Options across the boundary: what is set arrives, and nothing else does.
namespace Regolith

namespace Ffi

namespace RegolithOptions

def sets (opts : RegolithOptions) (bit : UInt64) : Prop := opts.present &&& bit ≠ 0

instance (opts : RegolithOptions) (bit : UInt64) : Decidable (opts.sets bit) :=
  inferInstanceAs (Decidable (opts.present &&& bit ≠ 0))

-- A bit above the seven that have a field.
def HasUnknownBit (opts : RegolithOptions) : Prop :=
  ∃ i, 7 ≤ i ∧ opts.present.toNat.testBit i = true

def HoldsUnknownEnum (opts : RegolithOptions) : Prop :=
  opts.sets OPT_COMPRESSION ∧
      opts.compression ∉ [COMPRESSION_NONE, COMPRESSION_SNAPPY, COMPRESSION_LZ4] ∨
    opts.sets OPT_DURABILITY ∧ opts.durability ∉ [DURABILITY_IMMEDIATE, DURABILITY_EVENTUAL] ∨
    opts.sets OPT_ISOLATION ∧
      opts.isolation ∉ [ISOLATION_READ_COMMITTED, ISOLATION_SNAPSHOT, ISOLATION_SERIALIZABLE,
        ISOLATION_REPEATABLE_READ]

-- The same fields set, to the same values.
structure AgreesWith (opts other : RegolithOptions) : Prop where
  present : opts.present = other.present
  write_buffer_size : opts.sets OPT_WRITE_BUFFER_SIZE →
    opts.write_buffer_size = other.write_buffer_size
  block_cache_size : opts.sets OPT_BLOCK_CACHE_SIZE →
    opts.block_cache_size = other.block_cache_size
  max_background_compactions : opts.sets OPT_MAX_BACKGROUND_COMPACTIONS →
    opts.max_background_compactions = other.max_background_compactions
  transaction_keys_inline : opts.sets OPT_TRANSACTION_KEYS_INLINE →
    opts.transaction_keys_inline = other.transaction_keys_inline
  compression : opts.sets OPT_COMPRESSION → opts.compression = other.compression
  durability : opts.sets OPT_DURABILITY → opts.durability = other.durability
  isolation : opts.sets OPT_ISOLATION → opts.isolation = other.isolation

end RegolithOptions

-- Bit by bit: what is left of `present` has the bits from 7 on.
theorem unknown_getLsbD (present : UInt64) {i : Nat} (hi : i < 64) :
    (present &&& ~~~OPT_KNOWN).toBitVec.getLsbD i =
      (present.toNat.testBit i && !decide (i < 7)) := by
  have hknown : ∀ i < 64, OPT_KNOWN.toBitVec.getLsbD i = decide (i < 7) := by decide
  rw [UInt64.toBitVec_and, UInt64.toBitVec_not, BitVec.getLsbD_and, BitVec.getLsbD_not,
    hknown i hi, decide_eq_true hi, Bool.true_and]
  rfl

theorem unknown_eq_zero_iff (present : UInt64) :
    present &&& ~~~OPT_KNOWN = 0 ↔ ∀ i, 7 ≤ i → present.toNat.testBit i = false := by
  constructor
  · intro h i hlow
    by_cases hi : i < 64
    · have hbit := unknown_getLsbD present hi
      rw [h] at hbit
      simpa [Nat.not_lt.mpr hlow] using hbit.symm
    · exact Nat.testBit_lt_two_pow
        (present.toNat_lt.trans_le (Nat.pow_le_pow_right (by decide) (Nat.not_lt.mp hi)))
  · intro h
    rw [← UInt64.toBitVec_inj]
    refine BitVec.eq_of_getLsbD_eq fun i hi => ?_
    rw [unknown_getLsbD present hi]
    by_cases hlow : i < 7
    · simp [hlow]
    · simp [h i (Nat.not_lt.mp hlow)]

theorem unknown_iff (opts : RegolithOptions) :
    opts.present &&& ~~~OPT_KNOWN ≠ 0 ↔ opts.HasUnknownBit := by
  rw [Ne, unknown_eq_zero_iff, RegolithOptions.HasUnknownBit]
  simp

section Resolve

variable {R : Type} {opts other : RegolithOptions} {bit : UInt64}

theorem as_usize_ok (name : String) (value : UInt64) : as_usize name value = .ok value.toNat :=
  if_pos (Nat.le_pred_of_lt value.toNat_lt)

theorem if_present_set {α : Type} (h : opts.sets bit) (value : Except Failure α)
    (set : α → ResolvedOptions R → ResolvedOptions R) :
    if_present opts bit value set = fun resolved => value.map (set · resolved) :=
  funext fun _ => if_pos h

theorem if_present_unset {α : Type} (h : ¬opts.sets bit) (value : Except Failure α)
    (set : α → ResolvedOptions R → ResolvedOptions R) :
    if_present opts bit value set = .ok :=
  funext fun _ => if_neg h

def Fails {α : Type} (result : Except Failure α) : Prop := ∃ failure, result = .error failure

theorem not_fails_ok {α : Type} (value : α) : ¬Fails (.ok value) := nofun

theorem if_present_fails {α : Type} (value : Except Failure α)
    (set : α → ResolvedOptions R → ResolvedOptions R) (resolved : ResolvedOptions R) :
    Fails (if_present opts bit value set resolved) ↔ opts.sets bit ∧ Fails value := by
  by_cases h : opts.sets bit
  · rw [if_present_set h, and_iff_right h]
    cases value <;> simp [Fails, Except.map]
  · rw [if_present_unset h]
    exact iff_of_false (not_fails_ok resolved) fun hand => h hand.1

-- Whether a field is refused does not depend on what was resolved before it.
theorem if_present_bind_fails {α : Type} {value : Except Failure α}
    {set : α → ResolvedOptions R → ResolvedOptions R} {resolved : ResolvedOptions R}
    {next : ResolvedOptions R → Except Failure (ResolvedOptions R)} {P : Prop}
    (h : ∀ resolved, Fails (next resolved) ↔ P) :
    Fails (if_present opts bit value set resolved >>= next) ↔
      opts.sets bit ∧ Fails value ∨ P := by
  rw [← if_present_fails value set resolved]
  cases if_present opts bit value set resolved with
  | error failure => exact iff_of_true ⟨failure, rfl⟩ (.inl ⟨failure, rfl⟩)
  | ok resolved => exact (h resolved).trans (or_iff_right (not_fails_ok resolved)).symm

theorem match_enum_fails {α : Type} (arms : List (UInt32 × α)) (other : UInt32)
    (detail : String) : Fails (match_enum arms other detail) ↔ other ∉ arms.map Prod.fst := by
  rw [match_enum]
  cases hlookup : arms.lookup other with
  | none =>
    refine iff_of_true ⟨_, rfl⟩ fun hmem => ?_
    obtain ⟨arm, harm, rfl⟩ := List.mem_map.mp hmem
    simpa using List.lookup_eq_none_iff.mp hlookup arm harm
  | some value =>
    refine iff_of_false nofun fun hmem => hmem ?_
    obtain ⟨front, back, harms, -⟩ := List.lookup_eq_some_iff.mp hlookup
    simp [harms]

theorem options_from_fails (defaults : ResolvedOptions R) (opts : RegolithOptions) :
    Fails (options_from defaults (some opts)) ↔ opts.HasUnknownBit ∨ opts.HoldsUnknownEnum := by
  rw [← unknown_iff]
  simp only [options_from]
  split
  · rename_i hunknown
    exact iff_of_true ⟨_, rfl⟩ (.inl hunknown)
  · rename_i hunknown
    rw [or_iff_right hunknown]
    refine (if_present_bind_fails fun resolved => if_present_bind_fails fun resolved =>
      if_present_bind_fails fun resolved => if_present_bind_fails fun resolved =>
      if_present_bind_fails fun resolved => if_present_bind_fails fun resolved =>
      if_present_fails _ _ resolved).trans ?_
    -- a size always fits, so what is left is the three enums
    simp only [as_usize_ok, not_fails_ok, and_false, false_or, match_enum_fails]
    rfl

-- A field that is not set is not read.
theorem if_present_congr {α : Type} {value value' : Except Failure α}
    (set : α → ResolvedOptions R → ResolvedOptions R) (hpresent : opts.present = other.present)
    (hvalue : opts.sets bit → value = value') :
    if_present opts bit value set = if_present other bit value' set := by
  have hsets : other.sets bit ↔ opts.sets bit := by
    rw [RegolithOptions.sets, RegolithOptions.sets, hpresent]
  by_cases h : opts.sets bit
  · rw [if_present_set h, if_present_set (hsets.mpr h), hvalue h]
  · rw [if_present_unset h, if_present_unset (mt hsets.mp h)]

theorem options_from_congr (defaults : ResolvedOptions R) (h : opts.AgreesWith other) :
    options_from defaults (some opts) = options_from defaults (some other) := by
  simp only [options_from]
  rw [if_present_congr _ h.present fun hset => by rw [h.write_buffer_size hset],
    if_present_congr _ h.present fun hset => by rw [h.block_cache_size hset],
    if_present_congr _ h.present fun hset => by rw [h.max_background_compactions hset],
    if_present_congr _ h.present fun hset => by rw [h.transaction_keys_inline hset],
    if_present_congr _ h.present fun hset => by rw [h.compression hset],
    if_present_congr _ h.present fun hset => by rw [h.durability hset],
    if_present_congr _ h.present fun hset => by rw [h.isolation hset], h.present]

end Resolve

end Ffi

namespace Go

open Ffi

-- What the constants are called in the engine.
def compressionNamed : List (Compression × CompressionType) :=
  [(CompressionNone, .None), (CompressionSnappy, .Snappy), (CompressionLZ4, .Lz4)]

def durabilityNamed : List (Durability × DurabilityMode) :=
  [(DurabilityImmediate, .Immediate), (DurabilityEventual, .Eventual)]

def isolationNamed : List (Isolation × IsolationLevel) :=
  [(IsolationReadCommitted, .ReadCommitted), (IsolationSnapshot, .SnapshotIsolation),
    (IsolationSerializable, .Serializable), (IsolationRepeatableRead, .RepeatableRead)]

namespace Options

-- Every enum holds one of its declared constants.
structure Declared (o : Options) : Prop where
  compression : o.Compression ∈
    [CompressionDefault, CompressionNone, CompressionSnappy, CompressionLZ4]
  durability : o.Durability ∈ [DurabilityDefault, DurabilityImmediate, DurabilityEventual]
  isolation : o.Isolation ∈ [IsolationDefault, IsolationReadCommitted, IsolationSnapshot,
    IsolationSerializable, IsolationRepeatableRead]

section Applied

variable {R : Type}

-- The defaults, with the fields that are set in their place.
def applied (o : Options) (defaults : ResolvedOptions R) : ResolvedOptions R where
  engine :=
    { defaults.engine with
      write_buffer_size :=
        (o.WriteBufferSize.map (·.toNat)).getD defaults.engine.write_buffer_size
      block_cache_size := (o.BlockCacheSize.map (·.toNat)).getD defaults.engine.block_cache_size
      max_background_compactions :=
        (o.MaxBackgroundCompactions.map (·.toNat)).getD defaults.engine.max_background_compactions
      transaction_keys_inline :=
        (o.TransactionKeysInline.map (·.toNat)).getD defaults.engine.transaction_keys_inline
      compression := (compressionNamed.lookup o.Compression).getD defaults.engine.compression
      durability := (durabilityNamed.lookup o.Durability).getD defaults.engine.durability }
  isolation := (isolationNamed.lookup o.Isolation).getD defaults.isolation

end Applied

section Switch

variable {field unset : UInt32} {cases : List (UInt32 × UInt32)} {bit : UInt64}
  {set : UInt32 → RegolithOptions → RegolithOptions} {detail : String} {c : RegolithOptions}

theorem lookup_isSome_iff : (cases.lookup field).isSome ↔ field ∈ cases.map Prod.fst := by
  simp only [List.lookup_isSome_iff, List.mem_map, beq_iff_eq]
  exact exists_congr fun arm => and_congr_right fun _ => eq_comm

theorem switch_error_iff :
    (switch field unset cases bit set detail c).2 = none ↔ field ∈ unset :: cases.map Prod.fst := by
  rw [switch, List.mem_cons, ← lookup_isSome_iff]
  split
  · rename_i hunset
    exact iff_of_true rfl (.inl hunset)
  · rename_i hset
    cases cases.lookup field <;> simp [hset]

-- The constant's field of `c` is still zero, as it stays where the enum is unset.
theorem switch_known (h : field ∈ unset :: cases.map Prod.fst) (hunset : cases.lookup unset = none)
    (hzero : set 0 c = c) :
    switch field unset cases bit set detail c =
      (set ((cases.lookup field).getD 0)
        { c with present := c.present ||| if decide (field ≠ unset) then bit else 0 }, none) := by
  rw [switch]
  by_cases hset : field = unset
  · simp [hset, hunset, hzero]
  · obtain ⟨constant, hlookup⟩ := Option.isSome_iff_exists.mp
      (lookup_isSome_iff.mpr ((List.mem_cons.mp h).resolve_left hset))
    simp [hset, hlookup]

end Switch

theorem toC_error_iff (o : Options) : o.toC.2 = none ↔ o.Declared := by
  have hcompression (c) : (o.compressionToC c).2 = none ↔ o.Compression ∈
      [CompressionDefault, CompressionNone, CompressionSnappy, CompressionLZ4] := switch_error_iff
  have hdurability (c) : (o.durabilityToC c).2 = none ↔ o.Durability ∈
      [DurabilityDefault, DurabilityImmediate, DurabilityEventual] := switch_error_iff
  have hisolation (c) : (o.isolationToC c).2 = none ↔ o.Isolation ∈ [IsolationDefault,
      IsolationReadCommitted, IsolationSnapshot, IsolationSerializable, IsolationRepeatableRead] :=
    switch_error_iff
  have hdeclared : o.Declared ↔ _ ∧ _ ∧ _ :=
    ⟨fun h => ⟨h.compression, h.durability, h.isolation⟩, fun h => ⟨h.1, h.2.1, h.2.2⟩⟩
  rw [toC, hdeclared, ← hcompression o.numbersToC]
  rcases o.compressionToC o.numbersToC with ⟨c, _ | err⟩
  · simp only [true_and]
    rw [← hdurability c]
    rcases o.durabilityToC c with ⟨c, _ | err⟩
    · simp only [true_and]
      exact hisolation c
    · simp
  · simp

-- The mask that says which of the seven fields are set.
def mask (write_buffer_size block_cache_size max_background_compactions transaction_keys_inline
    compression durability isolation : Bool) : UInt64 :=
  (if write_buffer_size then OPT_WRITE_BUFFER_SIZE else 0) |||
    (if block_cache_size then OPT_BLOCK_CACHE_SIZE else 0) |||
    (if max_background_compactions then OPT_MAX_BACKGROUND_COMPACTIONS else 0) |||
    (if transaction_keys_inline then OPT_TRANSACTION_KEYS_INLINE else 0) |||
    (if compression then OPT_COMPRESSION else 0) |||
    (if durability then OPT_DURABILITY else 0) |||
    (if isolation then OPT_ISOLATION else 0)

theorem mask_sets : ∀ a b c d e f g : Bool,
    mask a b c d e f g &&& ~~~OPT_KNOWN = 0 ∧
    (mask a b c d e f g &&& OPT_WRITE_BUFFER_SIZE ≠ 0 ↔ a) ∧
    (mask a b c d e f g &&& OPT_BLOCK_CACHE_SIZE ≠ 0 ↔ b) ∧
    (mask a b c d e f g &&& OPT_MAX_BACKGROUND_COMPACTIONS ≠ 0 ↔ c) ∧
    (mask a b c d e f g &&& OPT_TRANSACTION_KEYS_INLINE ≠ 0 ↔ d) ∧
    (mask a b c d e f g &&& OPT_COMPRESSION ≠ 0 ↔ e) ∧
    (mask a b c d e f g &&& OPT_DURABILITY ≠ 0 ↔ f) ∧
    (mask a b c d e f g &&& OPT_ISOLATION ≠ 0 ↔ g) := by
  decide +kernel

-- What `toC` builds where it builds anything.
def asC (o : Options) : RegolithOptions where
  present :=
    mask o.WriteBufferSize.isSome o.BlockCacheSize.isSome o.MaxBackgroundCompactions.isSome
      o.TransactionKeysInline.isSome (o.Compression ≠ CompressionDefault)
      (o.Durability ≠ DurabilityDefault) (o.Isolation ≠ IsolationDefault)
  write_buffer_size := o.WriteBufferSize.getD 0
  block_cache_size := o.BlockCacheSize.getD 0
  max_background_compactions := o.MaxBackgroundCompactions.getD 0
  transaction_keys_inline := o.TransactionKeysInline.getD 0
  compression := (compressionCases.lookup o.Compression).getD 0
  durability := (durabilityCases.lookup o.Durability).getD 0
  isolation := (isolationCases.lookup o.Isolation).getD 0

theorem asC_sets (o : Options) :
    o.asC.present &&& ~~~OPT_KNOWN = 0 ∧
    (o.asC.sets OPT_WRITE_BUFFER_SIZE ↔ o.WriteBufferSize.isSome = true) ∧
    (o.asC.sets OPT_BLOCK_CACHE_SIZE ↔ o.BlockCacheSize.isSome = true) ∧
    (o.asC.sets OPT_MAX_BACKGROUND_COMPACTIONS ↔ o.MaxBackgroundCompactions.isSome = true) ∧
    (o.asC.sets OPT_TRANSACTION_KEYS_INLINE ↔ o.TransactionKeysInline.isSome = true) ∧
    (o.asC.sets OPT_COMPRESSION ↔ decide (o.Compression ≠ CompressionDefault) = true) ∧
    (o.asC.sets OPT_DURABILITY ↔ decide (o.Durability ≠ DurabilityDefault) = true) ∧
    (o.asC.sets OPT_ISOLATION ↔ decide (o.Isolation ≠ IsolationDefault) = true) :=
  mask_sets _ _ _ _ _ _ _

theorem numbersToC_eq (o : Options) :
    o.numbersToC =
      ⟨mask o.WriteBufferSize.isSome o.BlockCacheSize.isSome o.MaxBackgroundCompactions.isSome
          o.TransactionKeysInline.isSome false false false,
        o.WriteBufferSize.getD 0, o.BlockCacheSize.getD 0, o.MaxBackgroundCompactions.getD 0,
        o.TransactionKeysInline.getD 0, 0, 0, 0⟩ := by
  unfold numbersToC
  rcases o.WriteBufferSize with _ | w <;> rcases o.BlockCacheSize with _ | b <;>
    rcases o.MaxBackgroundCompactions with _ | c <;>
    rcases o.TransactionKeysInline with _ | k <;>
    simp only [ifSet, Option.isSome_none, Option.isSome_some, Option.getD_none, Option.getD_some,
      RegolithOptions.mk.injEq, and_true] <;>
    decide

theorem mask_or (a b c d e f g : Bool) :
    mask a b c d false false false ||| (if e then optCompression else 0) |||
      (if f then optDurability else 0) ||| (if g then optIsolation else 0) =
    mask a b c d e f g := by
  revert a b c d e f g
  decide +kernel

theorem toC_eq {o : Options} (h : o.Declared) : o.toC = (o.asC, none) := by
  simp only [toC, compressionToC, durabilityToC, isolationToC, numbersToC_eq]
  rw [switch_known h.compression rfl rfl]
  simp only
  rw [switch_known h.durability rfl rfl]
  simp only
  rw [switch_known h.isolation rfl rfl]
  simp only [mask_or]
  rfl

section Arrives

variable {R : Type} {opts : RegolithOptions} {bit : UInt64}

-- A numeric field arrives where it is set, and the default stays where it is not. `get`
-- and `set` read and write one field.
theorem size_arrives (get : ResolvedOptions R → Nat) {field : Option UInt64}
    (hbit : opts.sets bit ↔ field.isSome = true) (name : String)
    {set : Nat → ResolvedOptions R → ResolvedOptions R} {resolved : ResolvedOptions R}
    (hset : set (get resolved) resolved = resolved) :
    if_present opts bit (as_usize name (field.getD 0)) set resolved =
      .ok (set ((field.map (·.toNat)).getD (get resolved)) resolved) := by
  rw [as_usize_ok]
  cases field with
  | none =>
    rw [if_present_unset (by simp [hbit]), Option.map_none, Option.getD_none, hset]
  | some value =>
    rw [if_present_set (hbit.mpr rfl)]
    rfl

-- An enum arrives as the engine's value of the same name.
theorem enum_arrives {α : Type} (get : ResolvedOptions R → α) {field unset constant : UInt32}
    {arms named : List (UInt32 × α)} (hbit : opts.sets bit ↔ decide (field ≠ unset) = true)
    (hunset : named.lookup unset = none)
    (hnamed : field ≠ unset →
      (named.lookup field).isSome ∧ arms.lookup constant = named.lookup field)
    (detail : String) {set : α → ResolvedOptions R → ResolvedOptions R}
    {resolved : ResolvedOptions R} (hset : set (get resolved) resolved = resolved) :
    if_present opts bit (match_enum arms constant detail) set resolved =
      .ok (set ((named.lookup field).getD (get resolved)) resolved) := by
  by_cases hfield : field = unset
  · rw [if_present_unset (by simp [hbit, hfield]), hfield, hunset, Option.getD_none, hset]
  · obtain ⟨hsome, hsame⟩ := hnamed hfield
    obtain ⟨value, hvalue⟩ := Option.isSome_iff_exists.mp hsome
    rw [if_present_set (hbit.mpr (decide_eq_true hfield)), match_enum, hsame, hvalue]
    rfl

end Arrives

-- A check of every member of a list, and of nothing else.
theorem forall_mem_of_all {α : Type} {p : α → Prop} [DecidablePred p] {l : List α}
    (h : l.all (fun a => decide (p a)) = true) : ∀ a ∈ l, p a :=
  fun a ha => of_decide_eq_true (List.all_eq_true.mp h a ha)

-- The constants of the three files name the same members.
theorem compression_numbers : ∀ field ∈ CompressionDefault :: compressionCases.map Prod.fst,
    field ≠ CompressionDefault → (compressionNamed.lookup field).isSome ∧
      compressions.lookup ((compressionCases.lookup field).getD 0) = compressionNamed.lookup field :=
  forall_mem_of_all (by decide)

theorem durability_numbers : ∀ field ∈ DurabilityDefault :: durabilityCases.map Prod.fst,
    field ≠ DurabilityDefault → (durabilityNamed.lookup field).isSome ∧
      durabilities.lookup ((durabilityCases.lookup field).getD 0) = durabilityNamed.lookup field :=
  forall_mem_of_all (by decide)

theorem isolation_numbers : ∀ field ∈ IsolationDefault :: isolationCases.map Prod.fst,
    field ≠ IsolationDefault → (isolationNamed.lookup field).isSome ∧
      isolations.lookup ((isolationCases.lookup field).getD 0) = isolationNamed.lookup field :=
  forall_mem_of_all (by decide)

theorem ok_bind {α β : Type} {result : Except Failure α} {value : α} (h : result = .ok value)
    (next : α → Except Failure β) : result >>= next = next value := by
  rw [h]
  rfl

theorem asC_arrives {R : Type} {o : Options} (h : o.Declared) (defaults : ResolvedOptions R) :
    options_from defaults (some o.asC) = .ok (o.applied defaults) := by
  obtain ⟨hknown, hwrite, hcache, hcompactions, hinline, hcompression, hdurability, hisolation⟩ :=
    asC_sets o
  have hnone : ¬o.asC.present &&& ~~~OPT_KNOWN ≠ 0 := not_not.mpr hknown
  simp only [options_from, if_neg hnone]
  calc
    _ = _ := ok_bind (size_arrives (·.engine.write_buffer_size) hwrite _ rfl) _
    _ = _ := ok_bind (size_arrives (·.engine.block_cache_size) hcache _ rfl) _
    _ = _ := ok_bind (size_arrives (·.engine.max_background_compactions) hcompactions _ rfl) _
    _ = _ := ok_bind (size_arrives (·.engine.transaction_keys_inline) hinline _ rfl) _
    _ = _ := ok_bind (enum_arrives (·.engine.compression) hcompression rfl
      (compression_numbers _ h.compression) _ rfl) _
    _ = _ := ok_bind (enum_arrives (·.engine.durability) hdurability rfl
      (durability_numbers _ h.durability) _ rfl) _
    _ = .ok (o.applied defaults) :=
      enum_arrives (·.isolation) hisolation rfl (isolation_numbers _ h.isolation) _ rfl

end Options

-- What a caller sets is what the engine is opened with, and what is not set is not read.
theorem options_cross {R : Type} (defaults : ResolvedOptions R) :
    (∀ o : Options,
      (o.toC.2 = none ↔ o.Declared) ∧
      (o.toC.2 = none → options_from defaults (some o.toC.1) = .ok (o.applied defaults))) ∧
    (∀ opts : RegolithOptions,
      (∃ failure, options_from defaults (some opts) = .error failure) ↔
        opts.HasUnknownBit ∨ opts.HoldsUnknownEnum) ∧
    ∀ opts other : RegolithOptions, opts.AgreesWith other →
      options_from defaults (some opts) = options_from defaults (some other) := by
  refine ⟨fun o => ⟨o.toC_error_iff, fun h => ?_⟩, options_from_fails defaults,
    fun opts other => options_from_congr defaults⟩
  have hdeclared := o.toC_error_iff.mp h
  rw [Options.toC_eq hdeclared]
  exact Options.asC_arrives hdeclared defaults

-- A cache of no bytes and another isolation level, over the engine's documented defaults.
theorem options_cross_zero :
    let defaults : ResolvedOptions Unit :=
      ⟨⟨67108864, 536870912, 1, 32, .Lz4, .Eventual, ()⟩, .SnapshotIsolation⟩
    let o : Options := ⟨none, some 0, none, none, 0, 0, IsolationSerializable⟩
    o.toC = (⟨66, 0, 0, 0, 0, 0, 0, 2⟩, none) ∧
      options_from defaults (some o.toC.1) =
        .ok ⟨⟨67108864, 0, 1, 32, .Lz4, .Eventual, ()⟩, .Serializable⟩ := by
  intro defaults o
  have htoC : o.toC = (⟨66, 0, 0, 0, 0, 0, 0, 2⟩, none) := by decide +kernel
  exact ⟨htoC, ((options_cross defaults).1 o).2 (congrArg Prod.snd htoC)⟩

end Go

end Regolith
