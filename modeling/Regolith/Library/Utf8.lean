import Mathlib.Data.List.Basic
import Mathlib.Tactic.SplitIfs

-- The bytes of a string, and the one byte that ends a string of C.
namespace Utf8

def encode (s : String) : List UInt8 := s.toUTF8.data.toList

-- `C.GoString`, of the memory that a pointer points at.
def GoString (memory : List UInt8) : List UInt8 := memory.takeWhile (· ≠ 0)

theorem encode_ofList (cs : List Char) :
    encode (String.ofList cs) = cs.flatMap String.utf8EncodeChar := by
  simp [encode, List.utf8Encode]

theorem ofNat_ne_zero {n : Nat} (hpos : 0 < n) (hlt : n < 256) : UInt8.ofNat n ≠ 0 := by
  intro h
  have hn : n % 256 = 0 := by simpa using congrArg UInt8.toNat h
  omega

-- No byte of another character is zero, in any of the four lengths.
theorem ne_zero_of_mem {c : Char} (hc : c ≠ Char.ofNat 0) {b : UInt8}
    (hb : b ∈ String.utf8EncodeChar c) : b ≠ 0 := by
  have hpos : 0 < c.val.toNat :=
    Nat.pos_of_ne_zero fun h => hc (Char.ext (UInt32.toNat_inj.mp h))
  unfold String.utf8EncodeChar at hb
  dsimp only at hb
  split_ifs at hb <;> simp only [List.mem_cons, List.not_mem_nil, or_false] at hb
  · obtain rfl := hb
    exact ofNat_ne_zero hpos (by omega)
  · obtain rfl | rfl := hb <;> exact ofNat_ne_zero (by omega) (by omega)
  · obtain rfl | rfl | rfl := hb <;> exact ofNat_ne_zero (by omega) (by omega)
  · obtain rfl | rfl | rfl | rfl := hb <;> exact ofNat_ne_zero (by omega) (by omega)

theorem filter_utf8EncodeChar (c : Char) :
    (String.utf8EncodeChar c).filter (· ≠ 0) =
      if c = Char.ofNat 0 then [] else String.utf8EncodeChar c := by
  split_ifs with hc
  · rw [hc]
    decide
  · exact List.filter_eq_self.mpr fun b hb => by simpa using ne_zero_of_mem hc hb

-- Dropping a character drops its bytes and no others.
theorem encode_filter (cs : List Char) :
    encode (String.ofList (cs.filter (· ≠ Char.ofNat 0))) =
      (encode (String.ofList cs)).filter (· ≠ 0) := by
  simp only [encode_ofList]
  induction cs with
  | nil => rfl
  | cons c cs ih =>
    rw [List.flatMap_cons, List.filter_append, filter_utf8EncodeChar, ← ih]
    by_cases hc : c = Char.ofNat 0 <;> simp [hc]

-- What has no zero is read to its end.
theorem GoString_terminated {message : List UInt8} (h : ∀ b ∈ message, b ≠ 0)
    (after : List UInt8) : GoString (message ++ 0 :: after) = message := by
  unfold GoString
  rw [List.takeWhile_append_of_pos fun b hb => by simpa using h b hb]
  simp

end Utf8
