import Mathlib.Data.List.Induction
import Regolith.Frame.Cuts

-- Which op a rejected frame is blamed on.
namespace Regolith.Frame

open Ffi Go

-- What is wrong with the op at the front of `rest`, after `ops`.
inductive BadOp (ops : List RawOp) : Bytes → Reason → Prop where
  | unknown_tag {tag : UInt8} {tail : Bytes} (hset : tag ≠ opSet) (hdelete : tag ≠ opDelete) :
      BadOp ops (tag :: tail) (.unknown_tag tag)
  | key_length {tag : UInt8} {tail : Bytes} (htag : tag = opSet ∨ tag = opDelete)
      (hshort : tail.length < 8) : BadOp ops (tag :: tail) (.cut_in_length "key")
  | key {tag : UInt8} {length tail : Bytes} (htag : tag = opSet ∨ tag = opDelete)
      (hlength : length.length = 8) (hshort : tail.length < Radix.ofLE length) :
      BadOp ops (tag :: (length ++ tail)) (.cut_inside "key")
  | value_length {key tail : Bytes} (hkey : key.length < 2 ^ 64) (hshort : tail.length < 8) :
      BadOp ops (opSet :: (Radix.toLE 8 key.length ++ key ++ tail)) (.cut_in_length "value")
  | value {key length tail : Bytes} (hkey : key.length < 2 ^ 64) (hlength : length.length = 8)
      (hshort : tail.length < Radix.ofLE length) :
      BadOp ops (opSet :: (Radix.toLE 8 key.length ++ key ++ (length ++ tail)))
        (.cut_inside "value")
  | past_limit {op : RawOp} {tail : Bytes} (hfits : Fits op)
      (hlimit : 2 ^ 30 < record_len (ops ++ [op])) :
      BadOp ops (op_frame op ++ tail) .past_limit

-- The frame is complete and within the limit up to the op at `index`, which is bad.
def BadAt (frame : Bytes) (index : Nat) (reason : Reason) : Prop :=
  ∃ ops rest, frame = packed ops ++ rest ∧ rest ≠ [] ∧ ops.length = index ∧
    record_len ops ≤ 2 ^ 30 ∧ BadOp ops rest reason

section Field

variable {rest : Bytes} {index : Nat} {what : String}

theorem field_short (h : rest.length < 8) :
    field rest index what = .error ⟨index, .cut_in_length what⟩ := by
  simp only [field, if_pos h]

theorem field_cut {length tail : Bytes} (hlength : length.length = 8)
    (hshort : tail.length < Radix.ofLE length) :
    field (length ++ tail) index what = .error ⟨index, .cut_inside what⟩ := by
  have hbound := Radix.ofLE_lt length
  rw [hlength] at hbound
  have hlong : ¬(length ++ tail).length < 8 := by
    rw [List.length_append]
    omega
  have hwide : ¬USIZE_MAX < Radix.ofLE length := by
    unfold USIZE_MAX
    omega
  simp only [field, if_neg hlong, List.take_left' hlength, List.drop_left' hlength, if_neg hwide,
    if_pos hshort]

-- How a field can fail.
theorem of_field_error {fault : OpFault} (h : field rest index what = .error fault) :
    fault = ⟨index, .cut_in_length what⟩ ∧ rest.length < 8 ∨
      fault = ⟨index, .cut_inside what⟩ ∧ ∃ length tail, rest = length ++ tail ∧
        length.length = 8 ∧ tail.length < Radix.ofLE length := by
  by_cases hshort : rest.length < 8
  · rw [field_short hshort] at h
    exact .inl ⟨(Except.error.inj h).symm, hshort⟩
  · have hlength : (rest.take 8).length = 8 := by
      rw [List.length_take]
      omega
    have hbound := Radix.ofLE_lt (rest.take 8)
    rw [hlength] at hbound
    have hwide : ¬USIZE_MAX < Radix.ofLE (rest.take 8) := by
      unfold USIZE_MAX
      omega
    by_cases hcut : (rest.drop 8).length < Radix.ofLE (rest.take 8)
    · have hsplit : rest = rest.take 8 ++ rest.drop 8 := (List.take_append_drop 8 rest).symm
      rw [hsplit, field_cut hlength hcut] at h
      exact .inr ⟨(Except.error.inj h).symm, _, _, hsplit, hlength, hcut⟩
    · simp only [field, if_neg hshort, if_neg hwide, if_neg hcut] at h
      cases h

end Field

section Read

variable {ops : List RawOp} {rest : Bytes} {index : Nat} {reason : Reason}

-- A bad op within the limit is one that the reader refuses, for the same reason.
theorem read_front_bad (h : BadOp ops rest reason) (hlimit : reason ≠ .past_limit) :
    read_front index rest = .error ⟨index, reason⟩ := by
  cases h with
  | @unknown_tag tag tail hset hdelete =>
    simp [read_front, read_op, show tag ≠ OP_SET from hset, show tag ≠ OP_DELETE from hdelete]
  | key_length htag hshort =>
    rcases htag with rfl | rfl <;>
      simp [read_front, read_op, opSet, opDelete, OP_SET, OP_DELETE, field_short hshort]
  | key htag hlength hshort =>
    rcases htag with rfl | rfl <;>
      simp [read_front, read_op, opSet, opDelete, OP_SET, OP_DELETE, field_cut hlength hshort]
  | @value_length key tail hkey hshort =>
    have hread := field_append key tail index "key" hkey
    simp only [read_front, read_op, show opSet = OP_SET from rfl, if_true, hread,
      field_short hshort]
  | @value key length tail hkey hlength hshort =>
    have hread := field_append key (length ++ tail) index "key" hkey
    simp only [read_front, read_op, show opSet = OP_SET from rfl, if_true, hread,
      field_cut hlength hshort]
  | past_limit => exact absurd rfl hlimit

-- A refused op is a bad one.
theorem bad_of_read_front {fault : OpFault} (hne : rest ≠ [])
    (h : read_front index rest = .error fault) :
    fault.index = index ∧ BadOp ops rest fault.reason := by
  obtain ⟨tag, tail, rfl⟩ := List.exists_cons_of_ne_nil hne
  simp only [read_front, read_op] at h
  split_ifs at h with hset hdelete
  · obtain rfl : tag = opSet := hset
    cases hkey : field tail index "key" with
    | error keyFault =>
      obtain rfl : keyFault = fault := by simpa [hkey] using h
      rcases of_field_error hkey with ⟨rfl, hshort⟩ | ⟨rfl, length, after, rfl, hlength, hshort⟩
      · exact ⟨rfl, .key_length (.inl rfl) hshort⟩
      · exact ⟨rfl, .key (.inl rfl) hlength hshort⟩
    | ok pair =>
      obtain ⟨key, after⟩ := pair
      cases hvalue : field after index "value" with
      | error valueFault =>
        obtain rfl : valueFault = fault := by simpa [hkey, hvalue] using h
        obtain ⟨hfits, htail⟩ := of_field hkey
        rw [htail]
        rcases of_field_error hvalue with ⟨rfl, hshort⟩ | ⟨rfl, length, tail, rfl, hlength, hshort⟩
        · exact ⟨rfl, .value_length hfits hshort⟩
        · exact ⟨rfl, .value hfits hlength hshort⟩
      | ok pair' => simp [hkey, hvalue] at h
  · obtain rfl : tag = opDelete := hdelete
    cases hkey : field tail index "key" with
    | error keyFault =>
      obtain rfl : keyFault = fault := by simpa [hkey] using h
      rcases of_field_error hkey with ⟨rfl, hshort⟩ | ⟨rfl, length, after, rfl, hlength, hshort⟩
      · exact ⟨rfl, .key_length (.inr rfl) hshort⟩
      · exact ⟨rfl, .key (.inr rfl) hlength hshort⟩
    | ok pair => simp [hkey] at h
  · obtain rfl := Except.error.inj h
    exact ⟨rfl, .unknown_tag hset hdelete⟩

end Read

section Limit

variable {σ : Type}

theorem runOps_append (on_op : σ → Nat → RawOp → Except OpFault σ) (state : σ) (index : Nat)
    (ops more : List RawOp) :
    runOps on_op state index (ops ++ more) =
      match runOps on_op state index ops with
      | .error fault => .error fault
      | .ok state => runOps on_op state (index + ops.length) more := by
  induction ops generalizing state index with
  | nil => rfl
  | cons op ops ih =>
    simp only [List.cons_append, runOps]
    cases on_op state index op with
    | error fault => rfl
    | ok state => simp only [ih, List.length_cons, Nat.add_assoc, Nat.add_comm 1]

theorem runOps_reference_ok {ops : List RawOp} (h : record_len ops ≤ 2 ^ 30) :
    runOps reference_op (4, .new) 0 ops = .ok (record_len ops, ⟨ops⟩) := by
  induction ops using List.reverseRecOn with
  | nil => rfl
  | append_singleton ops op ih =>
    have hsum : record_len (ops ++ [op]) = record_len ops + op_record op := by
      simp [record_len_append]
    rw [runOps_append, ih (by omega)]
    simp only [runOps, reference_op, hsum, if_neg (show ¬2 ^ 30 < record_len ops + op_record op by omega)]

-- The first op past the limit is where the limit is met.
theorem runOps_reference_past {ops more : List RawOp} {op : RawOp} (h : record_len ops ≤ 2 ^ 30)
    (hpast : 2 ^ 30 < record_len (ops ++ [op])) :
    runOps reference_op (4, .new) 0 (ops ++ op :: more) = .error ⟨ops.length, .past_limit⟩ := by
  have hsum : record_len (ops ++ [op]) = record_len ops + op_record op := by
    simp [record_len_append]
  rw [runOps_append, runOps_reference_ok h]
  simp only [runOps, reference_op, if_pos (show 2 ^ 30 < record_len ops + op_record op by omega),
    Nat.zero_add]

theorem exists_past {ops : List RawOp} (h : 2 ^ 30 < record_len ops) :
    ∃ front op more, ops = front ++ op :: more ∧ record_len front ≤ 2 ^ 30 ∧
      2 ^ 30 < record_len (front ++ [op]) := by
  induction ops using List.reverseRecOn with
  | nil => simp [record_len] at h
  | append_singleton ops op ih =>
    by_cases hpast : 2 ^ 30 < record_len ops
    · obtain ⟨front, first, more, rfl, hfront, hfirst⟩ := ih hpast
      exact ⟨front, first, more ++ [op], by simp, hfront, hfirst⟩
    · exact ⟨ops, op, [], rfl, by omega, h⟩

end Limit

section Blame

variable {frame : Bytes} {index : Nat} {reason : Reason} {fault : OpFault}

theorem badAt_of_decode (hframe : frame.length < 2 ^ 63) (h : decode frame = .error fault) :
    BadAt frame fault.index fault.reason := by
  obtain ⟨ops, ending, hscan⟩ := frame_code.exists_scan 0 frame
  rw [decode_eq_reference hframe, reference_decode_eq hscan] at h
  obtain ⟨rest, hsplit, hfits, hend⟩ := frame_code.scan_split hscan
  rw [← packed_eq] at hsplit
  by_cases hlimit : record_len ops ≤ 2 ^ 30
  · rw [runOps_reference_ok hlimit] at h
    cases ending with
    | none => cases h
    | some met =>
      obtain rfl : met = fault := Except.error.inj h
      obtain ⟨hne, hread⟩ := hend
      obtain ⟨hindex, hbad⟩ : met.index = 0 + ops.length ∧ BadOp ops rest met.reason :=
        bad_of_read_front hne hread
      exact ⟨ops, rest, hsplit, hne, by omega, hlimit, hbad⟩
  · obtain ⟨front, op, more, rfl, hfront, hpast⟩ := exists_past (Nat.lt_of_not_le hlimit)
    rw [runOps_reference_past hfront hpast] at h
    obtain rfl := Except.error.inj h
    have hrest : frame = packed front ++ (op_frame op ++ (packed more ++ rest)) := by
      rw [hsplit, packed_append, packed_eq (op :: more), PrefixCode.pack_cons, ← packed_eq]
      simp only [List.append_assoc]
    refine ⟨front, _, hrest, ?_, rfl, hfront, .past_limit (hfits op (by simp)) hpast⟩
    simp [frame_code.encode_ne_nil op]

theorem decode_of_badAt (hframe : frame.length < 2 ^ 63) (h : BadAt frame index reason) :
    decode frame = .error ⟨index, reason⟩ := by
  obtain ⟨ops, rest, rfl, hne, rfl, hlimit, hbad⟩ := h
  have hfits := fits_of_record_le hlimit
  rw [decode_eq_reference hframe, packed_eq]
  by_cases hpast : reason = .past_limit
  · subst hpast
    cases hbad with
    | @past_limit op tail hop hover =>
      obtain ⟨more, ending, htail⟩ := frame_code.exists_scan (0 + ops.length + 1) tail
      have hitem : PrefixCode.Scan read_front (0 + ops.length) (op_frame op ++ tail) (op :: more)
          ending := .item hne (frame_code.read_encode _ op tail hop) htail
      rw [reference_decode_eq (frame_code.scan_append hfits hitem),
        runOps_reference_past hlimit hover]
  · have hstuck : PrefixCode.Scan read_front (0 + ops.length) rest []
        (some ⟨0 + ops.length, reason⟩) := .stuck hne (read_front_bad hbad hpast)
    have hscan := frame_code.scan_append hfits hstuck
    rw [List.append_nil] at hscan
    rw [reference_decode_eq hscan, runOps_reference_ok hlimit, Nat.zero_add]
    rfl

-- A rejected frame is blamed on its first bad op, for what is wrong there.
theorem decode_blames_first (hframe : frame.length < 2 ^ 63) (h : decode frame = .error fault) :
    fault.failure = ⟨INVALID_ARG, some fault.detail⟩ ∧
    (∃! index, ∃ reason, BadAt frame index reason) ∧
    ∀ index reason, BadAt frame index reason ↔ index = fault.index ∧ reason = fault.reason := by
  have hbad := badAt_of_decode hframe h
  have honly : ∀ index reason, BadAt frame index reason ↔
      index = fault.index ∧ reason = fault.reason := by
    intro index reason
    constructor
    · intro hother
      rw [decode_of_badAt hframe hother] at h
      obtain rfl := Except.error.inj h
      exact ⟨rfl, rfl⟩
    · rintro ⟨rfl, rfl⟩
      exact hbad
  refine ⟨rfl, ⟨fault.index, ⟨fault.reason, hbad⟩, ?_⟩, honly⟩
  rintro index ⟨reason, hother⟩
  exact ((honly index reason).mp hother).1

-- A delete, and a set whose key claims more bytes than are left.
theorem decode_blames_first_claim :
    let frame : Bytes := [2, 0, 0, 0, 0, 0, 0, 0, 0, 1, 255, 255, 255, 255, 255, 255, 255, 255, 7]
    let fault : OpFault := ⟨1, .cut_inside "key"⟩
    fault.failure = ⟨INVALID_ARG, some fault.detail⟩ ∧
    (∃! index, ∃ reason, BadAt frame index reason) ∧
    ∀ index reason, BadAt frame index reason ↔ index = fault.index ∧ reason = fault.reason :=
  decode_blames_first (by decide) (by
    have hbad : BadOp [.Delete []] (1 :: ([255, 255, 255, 255, 255, 255, 255, 255] ++ [7]))
        (.cut_inside "key") := .key (.inl rfl) rfl (by decide)
    exact decode_of_badAt (by decide) ⟨[.Delete []], _, rfl, by simp, rfl, by decide, hbad⟩)

end Blame

end Regolith.Frame
