import Regolith.Frame.Decode

-- What the decoder makes of a frame that was cut short or added to.
namespace Regolith.Frame

open Ffi Go

variable {ops more : List RawOp}

theorem record_len_append (ops more : List RawOp) :
    record_len (ops ++ more) = record_len ops + (more.map op_record).sum := by
  simp only [record_len, List.map_append, List.sum_append]
  omega

theorem record_len_take_le (ops : List RawOp) (count : Nat) :
    record_len (ops.take count) ≤ record_len ops := by
  have happend := record_len_append (ops.take count) (ops.drop count)
  rw [List.take_append_drop] at happend
  omega

theorem fits_of_record_le (h : record_len ops ≤ 2 ^ 30) : ∀ op ∈ ops, Fits op := by
  have hlength := (length_packed_le_record ops).trans h
  exact fits_of_packed_lt (hlength.trans_lt (by decide))

theorem packed_prefix_iff (hops : ∀ op ∈ ops, Fits op) (hmore : ∀ op ∈ more, Fits op) :
    packed ops <+: packed more ↔ ops <+: more := by
  rw [packed_eq, packed_eq]
  exact frame_code.pack_prefix_iff hops hmore

theorem packed_take_front (ops : List RawOp) (count : Nat) :
    packed (ops.take count) <+: packed ops := by
  refine ⟨packed (ops.drop count), ?_⟩
  rw [← packed_append, List.take_append_drop]

theorem decode_ok_iff {frame : Bytes} (hframe : frame.length < 2 ^ 63) (batch : EngineBatch) :
    decode frame = .ok batch ↔ frame = packed batch.ops ∧ record_len batch.ops ≤ 2 ^ 30 := by
  rw [decode_eq_reference hframe]
  exact reference_decode_eq_ok_iff hframe batch.ops

theorem decode_take_iff (hrecord : record_len ops ≤ 2 ^ 30) {cut : Nat}
    (hcut : cut ≤ (packed ops).length) (batch : EngineBatch) :
    decode ((packed ops).take cut) = .ok batch ↔
      ∃ count ≤ ops.length, cut = (packed (ops.take count)).length ∧
        batch = ⟨ops.take count⟩ := by
  have hlength := (length_packed_le_record ops).trans hrecord
  have htaken : ((packed ops).take cut).length = cut := by
    rw [List.length_take]
    omega
  have hfits := fits_of_record_le hrecord
  rw [decode_ok_iff (by omega)]
  constructor
  · rintro ⟨hsame, hbatch⟩
    have hfront : packed batch.ops <+: packed ops := hsame ▸ List.take_prefix cut (packed ops)
    have hops := (packed_prefix_iff (fits_of_record_le hbatch) hfits).mp hfront
    have htake : batch.ops = ops.take batch.ops.length := List.prefix_iff_eq_take.mp hops
    refine ⟨batch.ops.length, hops.length_le, ?_, ?_⟩
    · rw [← htake, ← hsame, htaken]
    · rw [← htake]
  · rintro ⟨count, hcount, rfl, rfl⟩
    refine ⟨?_, (record_len_take_le ops count).trans hrecord⟩
    exact (List.prefix_iff_eq_take.mp (packed_take_front ops count)).symm

theorem decode_append_iff (hrecord : record_len ops ≤ 2 ^ 30) {tail : Bytes}
    (hframe : (packed ops ++ tail).length < 2 ^ 63) (batch : EngineBatch) :
    decode (packed ops ++ tail) = .ok batch ↔
      ∃ more, tail = packed more ∧ record_len (ops ++ more) ≤ 2 ^ 30 ∧ batch = ⟨ops ++ more⟩ := by
  rw [decode_ok_iff hframe]
  constructor
  · rintro ⟨hsame, hbatch⟩
    have hfront : packed ops <+: packed batch.ops := ⟨tail, hsame⟩
    obtain ⟨more, hmore⟩ :=
      (packed_prefix_iff (fits_of_record_le hrecord) (fits_of_record_le hbatch)).mp hfront
    refine ⟨more, ?_, hmore ▸ hbatch, by rw [hmore]⟩
    rw [← hmore, packed_append] at hsame
    exact List.append_cancel_left hsame
  · rintro ⟨more, rfl, hboth, rfl⟩
    exact ⟨(packed_append ops more).symm, hboth⟩

-- The format is a prefix code over ops, so a cut or a continued frame is never taken for
-- another batch.
theorem frame_prefix_code {ops : List RawOp} (hops : ∀ op ∈ ops, Fits op) :
    (∀ more, (∀ op ∈ more, Fits op) → (packed ops <+: packed more ↔ ops <+: more)) ∧
    (record_len ops ≤ 2 ^ 30 → ∀ batch,
      (∀ cut ≤ (packed ops).length,
        (decode ((packed ops).take cut) = .ok batch ↔
          ∃ count ≤ ops.length, cut = (packed (ops.take count)).length ∧
            batch = ⟨ops.take count⟩)) ∧
      ∀ tail : Bytes, (packed ops ++ tail).length < 2 ^ 63 →
        (decode (packed ops ++ tail) = .ok batch ↔
          ∃ more, tail = packed more ∧ record_len (ops ++ more) ≤ 2 ^ 30 ∧
            batch = ⟨ops ++ more⟩)) := by
  refine ⟨fun more hmore => packed_prefix_iff hops hmore, fun hrecord batch => ⟨?_, ?_⟩⟩
  · intro cut hcut
    exact decode_take_iff hrecord hcut batch
  · intro tail hframe
    exact decode_append_iff hrecord hframe batch

-- A value that looks like an op.
theorem frame_prefix_code_nested :
    let ops : List RawOp := [.Set [1] [2, 0, 0, 0, 0, 0, 0, 0, 0], .Delete []]
    (∀ more, (∀ op ∈ more, Fits op) → (packed ops <+: packed more ↔ ops <+: more)) ∧
    (record_len ops ≤ 2 ^ 30 → ∀ batch,
      (∀ cut ≤ (packed ops).length,
        (decode ((packed ops).take cut) = .ok batch ↔
          ∃ count ≤ ops.length, cut = (packed (ops.take count)).length ∧
            batch = ⟨ops.take count⟩)) ∧
      ∀ tail : Bytes, (packed ops ++ tail).length < 2 ^ 63 →
        (decode (packed ops ++ tail) = .ok batch ↔
          ∃ more, tail = packed more ∧ record_len (ops ++ more) ≤ 2 ^ 30 ∧
            batch = ⟨ops ++ more⟩)) :=
  frame_prefix_code (by simp [Fits])

end Regolith.Frame
