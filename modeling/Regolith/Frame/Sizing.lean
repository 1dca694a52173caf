import Regolith.Frame.Theorems

-- The sizing pass, and why short frames may skip it.
namespace Regolith.Frame

open Ffi Go

def op_add : RawOp → UInt64
  | .Set key value => set_record_len (UInt64.ofNat key.length) (UInt64.ofNat value.length)
  | .Delete key => delete_record_len (UInt64.ofNat key.length)

theorem charge_op_eq (total : RecordLen) (index : Nat) (op : RawOp) :
    charge_op total index op = total.charge (op_add op) index := by
  cases op <;> rfl

theorem toNat_max_record : MAX_BATCH_RECORD_LEN.toNat = 2 ^ 30 := by decide

theorem toNat_max_frame : MAX_FRAME_WITHOUT_SIZING.toNat = 460175065 := by decide

theorem toNat_count : BATCH_COUNT_LEN.toNat = 4 := by decide

-- The partial sum of a set does not wrap either.
theorem toNat_set_key (key : Bytes) (h : key.length < 2 ^ 63) :
    (SET_RECORD_OVERHEAD + UInt64.ofNat key.length).toNat = 25 + key.length := by
  rw [UInt64.toNat_add, UInt64.toNat_ofNat', show SET_RECORD_OVERHEAD.toNat = 25 by decide]
  omega

theorem toNat_op_add (op : RawOp) (h : op_size op < 2 ^ 63) : (op_add op).toNat = op_record op := by
  cases op with
  | Set key value =>
      simp only [op_size] at h
      rw [op_add, set_record_len, UInt64.toNat_add, toNat_set_key key (by omega),
        UInt64.toNat_ofNat', op_record]
      omega
  | Delete key =>
      simp only [op_size] at h
      rw [op_add, delete_record_len, UInt64.toNat_add, UInt64.toNat_ofNat', op_record,
        show DELETE_RECORD_OVERHEAD.toNat = 21 by decide]
      omega

-- A total within the limit leaves room for any op that a frame can hold.
theorem toNat_saturating_add (total : UInt64) (op : RawOp) (htotal : total.toNat ≤ 2 ^ 30)
    (h : op_size op < 2 ^ 63) :
    (saturating_add total (op_add op)).toNat = total.toNat + op_record op := by
  have hadd := toNat_op_add op h
  have hrecord : op_record op ≤ op_size op + 12 := by
    cases op <;> simp only [op_record, op_size] <;> omega
  rw [saturating_add, if_pos (by omega), UInt64.toNat_add, hadd]
  omega

theorem charge_op_spec (total : RecordLen) (index : Nat) (op : RawOp)
    (htotal : total.total.toNat ≤ 2 ^ 30) (h : op_size op < 2 ^ 63) :
    (2 ^ 30 < total.total.toNat + op_record op ∧
      charge_op total index op = .error ⟨index, .past_limit⟩) ∨
    (total.total.toNat + op_record op ≤ 2 ^ 30 ∧ ∃ next, charge_op total index op = .ok next ∧
      next.total.toNat = total.total.toNat + op_record op) := by
  have hnext := toNat_saturating_add total.total op htotal h
  rw [charge_op_eq, RecordLen.charge]
  by_cases hlimit : 2 ^ 30 < total.total.toNat + op_record op
  · have hgt : saturating_add total.total (op_add op) > MAX_BATCH_RECORD_LEN := by
      rw [gt_iff_lt, UInt64.lt_iff_toNat_lt, hnext, toNat_max_record]
      exact hlimit
    exact .inl ⟨hlimit, if_pos hgt⟩
  · have hle : ¬saturating_add total.total (op_add op) > MAX_BATCH_RECORD_LEN := by
      rw [gt_iff_lt, UInt64.lt_iff_toNat_lt, hnext, toNat_max_record]
      exact hlimit
    exact .inr ⟨by omega, _, if_neg hle, hnext⟩

theorem runOps_build (ops : List RawOp) (batch : EngineBatch) (index : Nat) :
    runOps build_op batch index ops = .ok ⟨batch.ops ++ ops⟩ := by
  induction ops generalizing batch index with
  | nil => simp [runOps]
  | cons op ops ih =>
      cases op <;> simp [runOps, build_op, ih, EngineBatch.put, EngineBatch.delete]

-- The reference closure and the sizing closure refuse the same op, exactly when
-- the ops pass the limit, and agree on the total until then.
theorem runOps_reference (ops : List RawOp) (total : RecordLen) (batch : EngineBatch) (index : Nat)
    (htotal : total.total.toNat ≤ 2 ^ 30) (hsize : ∀ op ∈ ops, op_size op < 2 ^ 63) :
    (2 ^ 30 < total.total.toNat + (ops.map op_record).sum ∧
      ∃ fault, runOps charge_op total index ops = .error fault ∧
        runOps reference_op (total.total.toNat, batch) index ops = .error fault) ∨
    (total.total.toNat + (ops.map op_record).sum ≤ 2 ^ 30 ∧
      ∃ next, runOps charge_op total index ops = .ok next ∧
        next.total.toNat = total.total.toNat + (ops.map op_record).sum ∧
        runOps reference_op (total.total.toNat, batch) index ops =
          .ok (next.total.toNat, ⟨batch.ops ++ ops⟩)) := by
  induction ops generalizing total batch index with
  | nil => exact .inr ⟨by simpa using htotal, total, rfl, by simp, by simp [runOps]⟩
  | cons op ops ih =>
      simp only [List.map_cons, List.sum_cons, ← Nat.add_assoc]
      rcases charge_op_spec total index op htotal (hsize op (by simp)) with
        ⟨hlimit, hcharge⟩ | ⟨hlimit, next, hcharge, hnext⟩
      · refine .inl ⟨by omega, ⟨index, .past_limit⟩, by simp only [runOps, hcharge], ?_⟩
        simp only [runOps, reference_op, hlimit, if_true]
      · have hstep : reference_op (total.total.toNat, batch) index op =
            .ok (next.total.toNat, ⟨batch.ops ++ [op]⟩) := by
          simp only [reference_op, if_neg (Nat.not_lt.mpr hlimit), hnext]
        simp only [runOps, hcharge, hstep, ← hnext]
        simpa using ih next ⟨batch.ops ++ [op]⟩ (index + 1) (hnext ▸ hlimit)
          (fun other hother => hsize other (by simp [hother]))

-- The density bound: no op costs the record more than 7/3 of its frame bytes.
theorem op_record_le (op : RawOp) : 3 * op_record op ≤ 7 * op_size op := by
  cases op <;> simp only [op_record, op_size] <;> omega

theorem sum_op_record_le (ops : List RawOp) :
    3 * (ops.map op_record).sum ≤ 7 * (ops.map op_size).sum := by
  induction ops with
  | nil => simp
  | cons op ops ih =>
      have := op_record_le op
      simp only [List.map_cons, List.sum_cons]
      omega

theorem record_len_le_of_short (ops : List RawOp) (rest : Bytes)
    (h : (packed ops ++ rest).length ≤ MAX_FRAME_WITHOUT_SIZING.toNat) :
    record_len ops ≤ 2 ^ 30 := by
  have hdense := sum_op_record_le ops
  rw [List.length_append, length_packed, toNat_max_frame] at h
  rw [record_len]
  omega

section Decode

variable {frame : Bytes} {ops : List RawOp} {fault : Option OpFault}

theorem build_eq (h : PrefixCode.Scan read_front 0 frame ops fault) :
    build frame = fault.elim (.ok ⟨ops⟩) .error := by
  rw [build, walk_eq_of_scan build_op .new h, runOps_build]
  rfl

theorem op_size_lt (hframe : frame.length < 2 ^ 63)
    (h : PrefixCode.Scan read_front 0 frame ops fault) : ∀ op ∈ ops, op_size op < 2 ^ 63 := by
  intro op hop
  obtain ⟨rest, hsplit, -, -⟩ := frame_code.scan_split h
  have hle := op_size_le_length hop
  rw [hsplit, ← packed_eq, List.length_append] at hframe
  omega

-- The same from the total that both passes start from.
theorem runOps_reference_new (hframe : frame.length < 2 ^ 63)
    (h : PrefixCode.Scan read_front 0 frame ops fault) :
    (2 ^ 30 < record_len ops ∧ ∃ reason, runOps charge_op .new 0 ops = .error reason ∧
      runOps reference_op (4, .new) 0 ops = .error reason) ∨
    (record_len ops ≤ 2 ^ 30 ∧ ∃ next, runOps charge_op .new 0 ops = .ok next ∧
      runOps reference_op (4, .new) 0 ops = .ok (record_len ops, ⟨ops⟩)) := by
  have hnew : RecordLen.new.total.toNat = 4 := toNat_count
  have hrun := runOps_reference ops .new .new 0 (by omega) (op_size_lt hframe h)
  rw [hnew, ← record_len] at hrun
  rcases hrun with hfault | ⟨hle, next, hcharge, hsum, href⟩
  · exact .inl hfault
  · exact .inr ⟨hle, next, hcharge, by rw [href, hsum]; rfl⟩

theorem gt_max_frame_iff (hframe : frame.length < 2 ^ 63) :
    UInt64.ofNat frame.length > MAX_FRAME_WITHOUT_SIZING ↔
      MAX_FRAME_WITHOUT_SIZING.toNat < frame.length := by
  rw [gt_iff_lt, UInt64.lt_iff_toNat_lt, UInt64.toNat_ofNat', Nat.mod_eq_of_lt (by omega)]

-- The ops of a short frame stay within the limit, whatever ends the frame.
theorem record_len_le_of_scan
    (hshort : frame.length ≤ MAX_FRAME_WITHOUT_SIZING.toNat)
    (h : PrefixCode.Scan read_front 0 frame ops fault) : record_len ops ≤ 2 ^ 30 := by
  obtain ⟨rest, hsplit, -, -⟩ := frame_code.scan_split h
  rw [← packed_eq] at hsplit
  exact record_len_le_of_short ops rest (hsplit ▸ hshort)

end Decode

end Regolith.Frame
