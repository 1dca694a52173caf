import Mathlib.Data.List.Lex
import Mathlib.Tactic.Ring

-- Fixed-width little-endian numbers over bytes, and the order on bytes that
-- makes lists of them lexicographic.

instance byteOrder : LinearOrder UInt8 where
  le_refl := UInt8.le_refl
  le_trans _ _ _ := UInt8.le_trans
  lt_iff_le_not_ge a b := by
    simp only [UInt8.le_iff_toNat_le, UInt8.lt_iff_toNat_lt]
    omega
  le_antisymm _ _ := UInt8.le_antisymm
  le_total := UInt8.le_total
  toDecidableLE := inferInstance
  toDecidableLT := inferInstance
  toDecidableEq := inferInstance

namespace Radix

-- The low `width` bytes of a number, least significant first.
def toLE : Nat → Nat → List UInt8
  | 0, _ => []
  | width + 1, value => UInt8.ofNat value :: toLE width (value / 256)

def ofLE : List UInt8 → Nat
  | [] => 0
  | byte :: rest => byte.toNat + 256 * ofLE rest

@[simp] theorem length_toLE (width value : Nat) : (toLE width value).length = width := by
  induction width generalizing value with
  | zero => rfl
  | succ width ih => simp [toLE, ih]

theorem ofLE_lt (bytes : List UInt8) : ofLE bytes < 256 ^ bytes.length := by
  induction bytes with
  | nil => simp [ofLE]
  | cons byte rest ih =>
      have hb := byte.toNat_lt
      simp only [ofLE, List.length_cons, Nat.pow_succ]
      omega

-- Writing keeps the number modulo what the width can hold.
theorem ofLE_toLE (width value : Nat) : ofLE (toLE width value) = value % 256 ^ width := by
  induction width generalizing value with
  | zero => simp [toLE, ofLE, Nat.mod_one]
  | succ width ih =>
      simp only [toLE, ofLE, ih, UInt8.toNat_ofNat', Nat.reducePow]
      rw [Nat.pow_succ, Nat.mul_comm (256 ^ width) 256, Nat.mod_mul]

theorem ofLE_toLE_of_lt (width value : Nat) (h : value < 256 ^ width) :
    ofLE (toLE width value) = value := by
  rw [ofLE_toLE, Nat.mod_eq_of_lt h]

theorem toLE_ofLE (bytes : List UInt8) : toLE bytes.length (ofLE bytes) = bytes := by
  induction bytes with
  | nil => rfl
  | cons byte rest ih =>
      have hb := byte.toNat_lt
      have hdiv : (byte.toNat + 256 * ofLE rest) / 256 = ofLE rest := by omega
      have hbyte : UInt8.ofNat (byte.toNat + 256 * ofLE rest) = byte := by
        apply UInt8.toNat_inj.mp
        simp only [UInt8.toNat_ofNat', Nat.reducePow]
        omega
      simp only [List.length_cons, ofLE, toLE, hdiv, hbyte, ih]

end Radix
