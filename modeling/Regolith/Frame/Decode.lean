import Regolith.Frame.Sizing

-- The decoder is the inverse of the packer, and its two passes are the one
-- pass of the reference decoder.
namespace Regolith.Frame

open Ffi Go

section Scan

variable {frame : Bytes} {ops : List RawOp} {fault : Option OpFault}

theorem reference_decode_eq (h : PrefixCode.Scan read_front 0 frame ops fault) :
    reference_decode frame =
      match runOps reference_op (4, .new) 0 ops with
      | .error reason => .error reason
      | .ok state => fault.elim (.ok state.2) .error := by
  rw [reference_decode, walk_eq_of_scan reference_op (4, .new) h]
  cases runOps reference_op (4, .new) 0 ops with
  | error reason => rfl
  | ok state => cases fault <;> rfl

-- Past the guard both passes run, and the second repeats what ended the first.
theorem decode_eq_of_long (hframe : frame.length < 2 ^ 63)
    (hlong : MAX_FRAME_WITHOUT_SIZING.toNat < frame.length)
    (h : PrefixCode.Scan read_front 0 frame ops fault) :
    decode frame =
      match runOps charge_op .new 0 ops with
      | .error reason => .error reason
      | .ok _ => fault.elim (.ok ⟨ops⟩) .error := by
  rw [decode, if_pos ((gt_max_frame_iff hframe).mpr hlong), walk_eq_of_scan charge_op .new h,
    build_eq h]
  cases runOps charge_op .new 0 ops with
  | error reason => rfl
  | ok state => cases fault <;> rfl

theorem decode_eq_of_short (hframe : frame.length < 2 ^ 63)
    (hshort : frame.length ≤ MAX_FRAME_WITHOUT_SIZING.toNat)
    (h : PrefixCode.Scan read_front 0 frame ops fault) :
    decode frame = fault.elim (.ok ⟨ops⟩) .error := by
  rw [decode, if_neg (fun hgt => Nat.not_lt.mpr hshort ((gt_max_frame_iff hframe).mp hgt)),
    build_eq h]

theorem decode_eq_reference (hframe : frame.length < 2 ^ 63) :
    decode frame = reference_decode frame := by
  obtain ⟨ops, fault, h⟩ := frame_code.exists_scan 0 frame
  rw [reference_decode_eq h]
  rcases runOps_reference_new hframe h with
    ⟨hlimit, reason, hcharge, href⟩ | ⟨-, next, hcharge, href⟩
  · have hlong : MAX_FRAME_WITHOUT_SIZING.toNat < frame.length := by
      by_contra hshort
      exact Nat.not_lt.mpr (record_len_le_of_scan (Nat.not_lt.mp hshort) h) hlimit
    rw [decode_eq_of_long hframe hlong h, hcharge, href]
  · rw [href]
    by_cases hlong : MAX_FRAME_WITHOUT_SIZING.toNat < frame.length
    · rw [decode_eq_of_long hframe hlong h, hcharge]
    · rw [decode_eq_of_short hframe (Nat.not_lt.mp hlong) h]

-- The reference decoder succeeds on complete frames within the limit.
theorem reference_decode_eq_ok_iff (hframe : frame.length < 2 ^ 63) (ops : List RawOp) :
    reference_decode frame = .ok ⟨ops⟩ ↔ frame = packed ops ∧ record_len ops ≤ 2 ^ 30 := by
  obtain ⟨read, fault, h⟩ := frame_code.exists_scan 0 frame
  rw [reference_decode_eq h]
  constructor
  · intro hok
    rcases runOps_reference_new hframe h with ⟨-, reason, -, href⟩ | ⟨hle, next, -, href⟩
    · rw [href] at hok
      cases hok
    · rw [href] at hok
      cases fault with
      | some reason => cases hok
      | none =>
          cases hok
          rw [packed_eq]
          exact ⟨((frame_code.scan_none_iff 0 frame ops).mp h).1, hle⟩
  · rintro ⟨rfl, hle⟩
    have hscan : PrefixCode.Scan read_front 0 (packed ops) ops none :=
      (frame_code.scan_none_iff 0 _ ops).mpr
        ⟨packed_eq ops, fits_of_packed_lt (hframe.trans (by decide))⟩
    obtain ⟨rfl, rfl⟩ := h.unique hscan
    rcases runOps_reference_new hframe h with ⟨hlimit, -⟩ | ⟨-, next, -, href⟩
    · exact absurd hlimit (Nat.not_lt.mpr hle)
    · rw [href]
      rfl

end Scan

-- A frame in memory is the packing of one op list at most.
theorem packed_injective {ops more : List RawOp} (h : packed ops = packed more)
    (hlen : (packed ops).length < 2 ^ 63) : ops = more := by
  have hscan : ∀ list : List RawOp, (packed list).length < 2 ^ 63 →
      PrefixCode.Scan read_front 0 (packed list) list none := fun list hlist =>
    (frame_code.scan_none_iff 0 _ list).mpr
      ⟨packed_eq list, fits_of_packed_lt (hlist.trans (by decide))⟩
  exact ((hscan ops hlen).unique (h ▸ hscan more (h ▸ hlen))).1

theorem length_packed_le_record (ops : List RawOp) : (packed ops).length ≤ record_len ops := by
  have := record_len_eq_size ops
  simp only [WriteBatch.Size] at this
  rw [packed]
  omega

theorem decode_packed_of_le {ops : List RawOp} (h : record_len ops ≤ 2 ^ 30) :
    decode (packed ops) = .ok ⟨ops⟩ := by
  have hlen : (packed ops).length < 2 ^ 63 :=
    lt_of_le_of_lt ((length_packed_le_record ops).trans h) (by decide)
  rw [decode_eq_reference hlen]
  exact (reference_decode_eq_ok_iff hlen ops).mpr ⟨rfl, h⟩

theorem decode_eq_ok_iff {frame : Bytes} (hframe : frame.length < 2 ^ 63) (ops : List RawOp) :
    decode frame = .ok ⟨ops⟩ ↔ frame = packed ops ∧ record_len ops ≤ 2 ^ 30 := by
  rw [decode_eq_reference hframe, reference_decode_eq_ok_iff hframe]

-- The decoder is the two-sided inverse of the packer within the size limit.
theorem decode_inverse (frame : Bytes) (ops : List RawOp) (hframe : frame.length < 2 ^ 63) :
    (decode frame = .ok ⟨ops⟩ ↔ frame = packed ops ∧ record_len ops ≤ 2 ^ 30) ∧
    record_len ops =
      (batchOf ops).Size + 8 * ops.countP isSet + 12 * ops.countP (!isSet ·) + 4 ∧
    (∀ more, frame = packed ops → frame = packed more → more = ops) ∧
    (record_len ops ≤ 2 ^ 30 → decode (packed ops) = .ok ⟨ops⟩) := by
  refine ⟨decode_eq_ok_iff hframe ops, record_len_eq_size ops, ?_, decode_packed_of_le⟩
  intro more hops hmore
  exact packed_injective (hmore ▸ hops) (hmore ▸ hframe)

-- Of sets and a delete, one set with an empty value.
theorem decode_inverse_mixed :
    let frame : Bytes := [1, 2, 0, 0, 0, 0, 0, 0, 0, 7, 8, 3, 0, 0, 0, 0, 0, 0, 0, 10, 11, 12,
      2, 1, 0, 0, 0, 0, 0, 0, 0, 9, 1, 1, 0, 0, 0, 0, 0, 0, 0, 5, 0, 0, 0, 0, 0, 0, 0, 0]
    let ops : List RawOp := [.Set [7, 8] [10, 11, 12], .Delete [9], .Set [5] []]
    decode frame = .ok ⟨ops⟩ ∧ record_len ops = (batchOf ops).Size + 8 * 2 + 12 * 1 + 4 ∧
      ∀ more, frame = packed more → more = ops := by
  intro frame ops
  have h := decode_inverse frame ops (by decide)
  have hframe : frame = packed ops := by decide
  exact ⟨h.1.mpr ⟨hframe, by decide⟩, h.2.1, fun more => h.2.2.1 more hframe⟩

-- No addition of the sizing pass wraps or saturates on the op after `ops`.
def ChargesExactly (ops : List RawOp) (op : RawOp) : Prop :=
  (op_add op).toNat = op_record op ∧
  (match op with
    | .Set key _ => (SET_RECORD_OVERHEAD + UInt64.ofNat key.length).toNat = 25 + key.length
    | .Delete _ => True) ∧
  ∀ total, runOps charge_op .new 0 ops = .ok total →
    total.total.toNat = record_len ops ∧
      (saturating_add total.total (op_add op)).toNat = total.total.toNat + op_record op

theorem charges_exactly (frame rest : Bytes) (ops : List RawOp) (op : RawOp)
    (hframe : frame.length < 2 ^ 63) (h : frame = packed (ops ++ [op]) ++ rest) :
    ChargesExactly ops op := by
  have hsize : ∀ other ∈ ops ++ [op], op_size other < 2 ^ 63 := by
    intro other hother
    have hle := op_size_le_length hother
    rw [h, List.length_append] at hframe
    omega
  have hop := hsize op (by simp)
  refine ⟨toNat_op_add op hop, ?_, ?_⟩
  · cases op with
    | Set key value =>
        simp only [op_size] at hop
        exact toNat_set_key key (by omega)
    | Delete key => trivial
  · intro total htotal
    have hnew : RecordLen.new.total.toNat = 4 := toNat_count
    rcases runOps_reference ops .new .new 0 (by omega)
        (fun other hother => hsize other (by simp [hother])) with
      ⟨-, fault, hcharge, -⟩ | ⟨hle, next, hcharge, hsum, -⟩
    · rw [htotal] at hcharge
      cases hcharge
    · rw [htotal] at hcharge
      cases hcharge
      rw [hnew, ← record_len] at hsum hle
      exact ⟨hsum, toNat_saturating_add _ op (by omega) hop⟩

-- Skipping the sizing pass never changes the answer.
theorem sizing_skip_sound (frame : Bytes) (hframe : frame.length < 2 ^ 63) :
    decode frame = reference_decode frame ∧
    (frame.length ≤ MAX_FRAME_WITHOUT_SIZING.toNat →
      ∀ ops rest, frame = packed ops ++ rest → record_len ops ≤ 2 ^ 30) ∧
    (∀ total, walk charge_op .new frame 0 = .ok total → ∃ batch, build frame = .ok batch) ∧
    (∀ ops op rest, frame = packed (ops ++ [op]) ++ rest → ChargesExactly ops op) := by
  refine ⟨decode_eq_reference hframe, ?_, ?_, fun ops op rest h =>
    charges_exactly frame rest ops op hframe h⟩
  · rintro hshort ops rest rfl
    exact record_len_le_of_short ops rest hshort
  · intro total htotal
    obtain ⟨ops, fault, h⟩ := frame_code.exists_scan 0 frame
    rw [walk_eq_of_scan charge_op .new h] at htotal
    rw [build_eq h]
    cases hcharge : runOps charge_op .new 0 ops with
    | error reason => simp [hcharge] at htotal
    | ok state =>
        cases fault with
        | some reason => simp [hcharge] at htotal
        | none => exact ⟨⟨ops⟩, rfl⟩

-- A frame whose third op is cut off, and the one without it.
theorem sizing_skip_sound_cut_off :
    let whole : Bytes := [1, 2, 0, 0, 0, 0, 0, 0, 0, 7, 8, 1, 0, 0, 0, 0, 0, 0, 0, 10,
      2, 1, 0, 0, 0, 0, 0, 0, 0, 9]
    let frame := whole ++ [1, 3, 0]
    decode frame = reference_decode frame ∧ record_len [.Set [7, 8] [10], .Delete [9]] ≤ 2 ^ 30 ∧
      (∃ batch, build whole = .ok batch) ∧ ChargesExactly [.Set [7, 8] [10]] (.Delete [9]) := by
  intro whole frame
  have hwhole : whole = packed [.Set [7, 8] [10], .Delete [9]] := by decide
  have hframe : frame = packed ([.Set [7, 8] [10]] ++ [.Delete [9]]) ++ [1, 3, 0] := by decide
  have hscan : PrefixCode.Scan read_front 0 whole [.Set [7, 8] [10], .Delete [9]] none :=
    (frame_code.scan_none_iff 0 _ _).mpr
      ⟨hwhole.trans (packed_eq _), fits_of_packed_lt (by decide)⟩
  obtain ⟨total, htotal⟩ : ∃ total, walk charge_op .new whole 0 = .ok total := by
    rw [walk_eq_of_scan charge_op .new hscan]
    exact ⟨_, rfl⟩
  obtain ⟨hdecode, hshort, -, hcharges⟩ := sizing_skip_sound frame (by decide)
  exact ⟨hdecode, hshort (by decide) _ _ hframe,
    (sizing_skip_sound whole (by decide)).2.2.1 total htotal, hcharges _ _ _ hframe⟩

end Regolith.Frame
