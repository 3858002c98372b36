import Mathlib.Data.List.Basic
import Mathlib.Algebra.Group.Nat.Defs

universe u

namespace BdkRtt.Lib

section Word

/-- The bytes of a word, the low one first. -/
def le32 (w : UInt32) : List UInt8 :=
  [w.toUInt8, (w >>> 8).toUInt8, (w >>> 16).toUInt8, (w >>> 24).toUInt8]

/-- The bytes of a half-word, the low one first. -/
def le16 (w : UInt16) : List UInt8 := [w.toUInt8, (w >>> 8).toUInt8]

/-- The word in the first four bytes. -/
def ofLe32 (xs : List UInt8) : UInt32 :=
  UInt32.ofNat ((xs.getD 0 0).toNat + (xs.getD 1 0).toNat * 2 ^ 8 + (xs.getD 2 0).toNat * 2 ^ 16 +
    (xs.getD 3 0).toNat * 2 ^ 24)

/-- The half-word in the first two bytes, the low one first. -/
def ofLe16 (xs : List UInt8) : UInt16 :=
  UInt16.ofNat ((xs.getD 0 0).toNat + (xs.getD 1 0).toNat * 2 ^ 8)

/-- The same in network order. -/
def ofBe16 (xs : List UInt8) : UInt16 :=
  UInt16.ofNat ((xs.getD 0 0).toNat * 2 ^ 8 + (xs.getD 1 0).toNat)

@[simp] theorem length_le32 (w : UInt32) : (le32 w).length = 4 := rfl

@[simp] theorem ofLe32_append (w : UInt32) (xs : List UInt8) : ofLe32 (le32 w ++ xs) = w := by
  apply UInt32.toNat_inj.mp
  have hlt := w.toNat_lt
  simp only [ofLe32, le32, List.cons_append, List.nil_append, List.getD_cons_zero,
    List.getD_cons_succ, UInt32.toNat_toUInt8, UInt32.toNat_shiftRight, Nat.shiftRight_eq_div_pow,
    UInt32.toNat_ofNat', UInt32.reduceToNat, Nat.reduceMod]
  omega

@[simp] theorem length_le16 (w : UInt16) : (le16 w).length = 2 := rfl

@[simp] theorem ofLe16_le16 (w : UInt16) : ofLe16 (le16 w) = w := by
  apply UInt16.toNat_inj.mp
  have hlt := w.toNat_lt
  simp only [ofLe16, le16, List.getD_cons_zero, List.getD_cons_succ, UInt16.toNat_toUInt8,
    UInt16.toNat_shiftRight, Nat.shiftRight_eq_div_pow, UInt16.toNat_ofNat', UInt16.reduceToNat,
    Nat.reduceMod]
  omega

theorem getD_take {xs : List UInt8} {n i : Nat} (h : i < n) :
    (xs.take n).getD i 0 = xs.getD i 0 := by
  rw [List.getD_eq_getElem?_getD, List.getD_eq_getElem?_getD, List.getElem?_take_of_lt h]

/-- The words are those of the first bytes. -/
theorem ofLe32_take {xs : List UInt8} {n : Nat} (h : 4 ≤ n) : ofLe32 (xs.take n) = ofLe32 xs := by
  rw [ofLe32, getD_take (by omega), getD_take (by omega), getD_take (by omega),
    getD_take (by omega), ofLe32]

theorem ofLe16_take {xs : List UInt8} {n : Nat} (h : 2 ≤ n) : ofLe16 (xs.take n) = ofLe16 xs := by
  rw [ofLe16, getD_take (by omega), getD_take (by omega), ofLe16]

end Word

section Splice

variable {α : Type u}

/-- A buffer with the elements `ys` copied in at `pos`. -/
def splice (buf : List α) (pos : Nat) (ys : List α) : List α :=
  buf.take pos ++ ys ++ buf.drop (pos + ys.length)

theorem splice_append (xs ys zs new : List α) (h : new.length = ys.length) :
    splice (xs ++ (ys ++ zs)) xs.length new = xs ++ (new ++ zs) := by
  rw [splice, List.take_left', ← List.drop_drop, List.drop_left' rfl, h, List.drop_left' rfl,
    List.append_assoc]
  rfl

theorem splice_append_right (xs ys new : List α) (k : Nat) :
    splice (xs ++ ys) (xs.length + k) new = xs ++ splice ys k new := by
  rw [splice, splice, List.take_length_add_append, ← List.drop_drop, ← List.drop_drop,
    List.drop_left' rfl, List.drop_drop, List.append_assoc, List.append_assoc, List.append_assoc]

end Splice

end BdkRtt.Lib
