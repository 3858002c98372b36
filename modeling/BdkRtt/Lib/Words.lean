import Mathlib.Data.Nat.Basic
import Mathlib.Algebra.Group.Nat.Defs

namespace BdkRtt.Lib

/-! Words of 32 bits as the numbers they stand for, where nothing wraps around. -/

variable {a b : UInt32}

theorem toNat_pos (h : a ≠ 0) : 0 < a.toNat :=
  Nat.pos_of_ne_zero fun h' => h (UInt32.toNat_inj.mp h')

theorem toNat_add_of_lt (h : a.toNat + b.toNat < 2 ^ 32) : (a + b).toNat = a.toNat + b.toNat := by
  rw [UInt32.toNat_add]
  exact Nat.mod_eq_of_lt h

theorem toNat_mul_of_lt (h : a.toNat * b.toNat < 2 ^ 32) : (a * b).toNat = a.toNat * b.toNat := by
  rw [UInt32.toNat_mul]
  exact Nat.mod_eq_of_lt h

theorem toNat_min (a b : UInt32) : (min a b).toNat = min a.toNat b.toNat := by
  change (if a ≤ b then a else b).toNat = _
  split
  next h =>
    have h' : a.toNat ≤ b.toNat := h
    omega
  next h =>
    have h' : ¬ a.toNat ≤ b.toNat := h
    omega

/-! Bits that are set and cleared in a register. -/

theorem or_and_mask (x m : UInt32) : (x ||| m) &&& m = m := by
  apply UInt32.toBitVec_inj.mp
  ext i hi
  simp only [UInt32.toBitVec_and, UInt32.toBitVec_or, BitVec.getElem_and, BitVec.getElem_or]
  cases x.toBitVec[i] <;> simp

theorem and_not_and_mask (x m : UInt32) : (x &&& ~~~m) &&& m = 0 := by
  apply UInt32.toBitVec_inj.mp
  ext i hi
  simp

end BdkRtt.Lib
