import Regolith.Frame
import Mathlib.Algebra.Order.BigOperators.Group.List

namespace Regolith.Frame

open Ffi Go

theorem add_buf (b : WriteBatch) (op : RawOp) : (add b op).buf = b.buf ++ op_frame op := by
  cases op <;>
    simp [add, WriteBatch.Set, WriteBatch.Delete, appendField, op_frame, List.append_assoc]

theorem add_n (b : WriteBatch) (op : RawOp) : (add b op).n = b.n + 1 := by
  cases op <;> rfl

theorem foldl_add_buf (ops : List RawOp) (b : WriteBatch) :
    (ops.foldl add b).buf = b.buf ++ PrefixCode.pack op_frame ops := by
  induction ops generalizing b with
  | nil => simp
  | cons op ops ih => simp [ih, add_buf, List.append_assoc]

theorem foldl_add_n (ops : List RawOp) (b : WriteBatch) :
    (ops.foldl add b).n = b.n + ops.length := by
  induction ops generalizing b with
  | nil => rfl
  | cons op ops ih =>
      simp only [List.foldl_cons, ih, add_n, List.length_cons]
      omega

theorem packed_eq (ops : List RawOp) : packed ops = PrefixCode.pack op_frame ops := by
  simp [packed, batchOf, foldl_add_buf, WriteBatch.zero]

@[simp] theorem length_op_frame (op : RawOp) : (op_frame op).length = op_size op := by
  cases op <;> simp [op_frame, op_size] <;> omega

theorem length_packed (ops : List RawOp) : (packed ops).length = (ops.map op_size).sum := by
  rw [packed_eq]
  induction ops with
  | nil => rfl
  | cons op ops ih => simp [ih]

theorem packed_append (ops more : List RawOp) : packed (ops ++ more) = packed ops ++ packed more := by
  simp [packed_eq]

theorem op_size_le_length {ops : List RawOp} {op : RawOp} (h : op ∈ ops) :
    op_size op ≤ (packed ops).length := by
  rw [length_packed]
  exact List.single_le_sum (by simp) _ (List.mem_map_of_mem h)

theorem fits_of_size_lt {op : RawOp} (h : op_size op < 2 ^ 64) : Fits op := by
  cases op <;> simp only [op_size, Fits] at h ⊢ <;> omega

theorem fits_of_packed_lt {ops : List RawOp} (h : (packed ops).length < 2 ^ 64) :
    ∀ op ∈ ops, Fits op := fun _ hop =>
  fits_of_size_lt (lt_of_le_of_lt (op_size_le_length hop) h)

-- The documented rule: the record is the frame plus 8 per set, 12 per delete, and 4.
theorem record_len_eq_size (ops : List RawOp) :
    record_len ops =
      (batchOf ops).Size + 8 * ops.countP isSet + 12 * ops.countP (!isSet ·) + 4 := by
  have hsize : (batchOf ops).Size = (ops.map op_size).sum := length_packed ops
  rw [hsize, record_len]
  induction ops with
  | nil => rfl
  | cons op ops ih =>
      have ih := ih (length_packed ops)
      cases op <;>
        simp only [List.map_cons, List.sum_cons, op_record, op_size, isSet, List.countP_cons,
          Bool.not_true, Bool.not_false, if_true, Bool.false_eq_true, if_false] at ih ⊢ <;> omega

-- A field is read back from what the packer wrote for it, and from nothing else.
theorem field_append (bytes tail : Bytes) (index : Nat) (what : String)
    (h : bytes.length < 2 ^ 64) :
    field (Radix.toLE 8 bytes.length ++ bytes ++ tail) index what = .ok (bytes, tail) := by
  have htake : (Radix.toLE 8 bytes.length ++ bytes ++ tail).take 8 =
      Radix.toLE 8 bytes.length := by
    rw [List.append_assoc]
    exact List.take_left' (Radix.length_toLE 8 _)
  have hdrop : (Radix.toLE 8 bytes.length ++ bytes ++ tail).drop 8 = bytes ++ tail := by
    rw [List.append_assoc]
    exact List.drop_left' (Radix.length_toLE 8 _)
  have hlen : Radix.ofLE (Radix.toLE 8 bytes.length) = bytes.length :=
    Radix.ofLE_toLE_of_lt 8 _ (by omega)
  have hshort : ¬(Radix.toLE 8 bytes.length ++ bytes ++ tail).length < 8 := by
    simp only [List.length_append, Radix.length_toLE]
    omega
  have hwide : ¬USIZE_MAX < bytes.length := by
    unfold USIZE_MAX
    omega
  have hcut : ¬(bytes ++ tail).length < bytes.length := by simp
  simp only [field, hshort, if_false, htake, hdrop, hlen, hwide, hcut, List.take_left,
    List.drop_left]

theorem of_field {rest bytes tail : Bytes} {index : Nat} {what : String}
    (h : field rest index what = .ok (bytes, tail)) :
    bytes.length < 2 ^ 64 ∧ rest = Radix.toLE 8 bytes.length ++ bytes ++ tail := by
  simp only [field] at h
  split_ifs at h with hshort hwide hcut
  cases h
  have hhead : (rest.take 8).length = 8 := by
    rw [List.length_take]
    omega
  have hlen : ((rest.drop 8).take (Radix.ofLE (rest.take 8))).length =
      Radix.ofLE (rest.take 8) := by
    rw [List.length_take]
    omega
  have hle := Radix.toLE_ofLE (rest.take 8)
  have hlt := Radix.ofLE_lt (rest.take 8)
  rw [hhead] at hle hlt
  rw [hlen]
  refine ⟨by omega, ?_⟩
  rw [hle, List.append_assoc, List.take_append_drop, List.take_append_drop]

theorem frame_code : PrefixCode.Code op_frame read_front Fits where
  encode_ne_nil op := by cases op <;> simp [op_frame]
  read_encode index op rest hfits := by
    cases op with
    | Set key value =>
        have hkey := field_append key (Radix.toLE 8 value.length ++ value ++ rest) index "key"
          hfits.1
        have hvalue := field_append value rest index "value" hfits.2
        simp only [List.append_assoc] at hkey hvalue
        simp [op_frame, read_front, read_op, opSet, OP_SET, hkey, hvalue, List.append_assoc]
    | Delete key =>
        have hkey := field_append key rest index "key" hfits
        simp only [List.append_assoc] at hkey
        simp [op_frame, read_front, read_op, opDelete, OP_SET, OP_DELETE, hkey, List.append_assoc]
  of_read {index bytes op rest} h := by
    cases bytes with
    | nil => cases h
    | cons tag tail =>
        simp only [read_front, read_op] at h
        split_ifs at h with hset hdelete
        · cases hkey : field tail index "key" with
          | error fault => simp [hkey] at h
          | ok pair =>
              obtain ⟨key, after⟩ := pair
              cases hvalue : field after index "value" with
              | error fault => simp [hkey, hvalue] at h
              | ok pair' =>
                  obtain ⟨value, after'⟩ := pair'
                  simp only [hkey, hvalue, Except.ok.injEq, Prod.mk.injEq] at h
                  obtain ⟨rfl, rfl⟩ := h
                  obtain ⟨hk, rfl⟩ := of_field hkey
                  obtain ⟨hv, rfl⟩ := of_field hvalue
                  exact ⟨⟨hk, hv⟩, by simp [op_frame, hset, OP_SET, opSet, List.append_assoc]⟩
        · cases hkey : field tail index "key" with
          | error fault => simp [hkey] at h
          | ok pair =>
              obtain ⟨key, after⟩ := pair
              simp only [hkey, Except.ok.injEq, Prod.mk.injEq] at h
              obtain ⟨rfl, rfl⟩ := h
              obtain ⟨hk, rfl⟩ := of_field hkey
              exact ⟨hk, by simp [op_frame, hdelete, OP_DELETE, opDelete, List.append_assoc]⟩

-- The walk is the closure run over the complete ops at the front, and then the
-- fault that ends the frame.
theorem walk_eq_of_scan {σ : Type} (on_op : σ → Nat → RawOp → Except OpFault σ) (state : σ)
    {index : Nat} {bytes : Bytes} {ops : List RawOp} {fault : Option OpFault}
    (h : PrefixCode.Scan read_front index bytes ops fault) :
    walk on_op state bytes index =
      match runOps on_op state index ops with
      | .error reason => .error reason
      | .ok state => fault.elim (.ok state) .error := by
  induction h generalizing state with
  | done index => simp [walk, runOps]
  | @stuck index bytes fault hne hread =>
      cases bytes with
      | nil => exact absurd rfl hne
      | cons tag tail =>
          rw [walk]
          simp only [read_front] at hread
          split
          · rename_i reason hreason
            rw [hread] at hreason
            cases hreason
            rfl
          · rename_i op after hok
            rw [hread] at hok
            cases hok
  | @item index bytes rest op ops fault hne hread _ ih =>
      cases bytes with
      | nil => exact absurd rfl hne
      | cons tag tail =>
          rw [walk]
          simp only [read_front] at hread
          split
          · rename_i reason hreason
            rw [hread] at hreason
            cases hreason
          · rename_i op' after hok
            rw [hread] at hok
            cases hok
            simp only [runOps]
            cases hop : on_op state index op with
            | error reason => rfl
            | ok state' => simpa only [hop] using ih state'

end Regolith.Frame
