import Mathlib.Algebra.CharP.Two
import Mathlib.Algebra.Polynomial.Div
import Mathlib.Data.ZMod.Basic
import Mathlib.Algebra.Field.ZMod

namespace BdkRtt.Lib.Crc

open Polynomial

variable {n k : Nat}

/-- The polynomial over two elements whose coefficients are the bits of a word. -/
noncomputable def ofBits (w : BitVec n) : Polynomial (ZMod 2) :=
  ∑ i ∈ Finset.range n, if w.getLsbD i then X ^ i else 0

/-- `X ^ n` and the lower terms in `p`. -/
noncomputable def generator (p : BitVec n) : Polynomial (ZMod 2) := X ^ n + ofBits p

/-- The blocks of a message, the first one highest. -/
noncomputable def message : List (BitVec k) → Polynomial (ZMod 2)
  | [] => 0
  | b :: bs => X ^ (k * bs.length) * ofBits b + message bs

/-- One step of the shift register. -/
def shift (p w : BitVec n) : BitVec n := if w.msb then (w <<< 1) ^^^ p else w <<< 1

/-- A block enters at the top of the register. -/
def feed (p w : BitVec n) (b : BitVec k) : BitVec n :=
  (shift p)^[k] (w ^^^ (b.setWidth n <<< (n - k)))

def checksum (p w : BitVec n) (bs : List (BitVec k)) : BitVec n := bs.foldl (feed p) w

theorem coeff_ofBits (w : BitVec n) (i : Nat) :
    (ofBits w).coeff i = if w.getLsbD i then 1 else 0 := by
  rw [ofBits, finsetSum_coeff]
  by_cases hi : i < n
  · rw [Finset.sum_eq_single_of_mem i (Finset.mem_range.mpr hi)]
    · split <;> simp
    · intro j _ hj
      split
      next => rw [coeff_X_pow, if_neg (Ne.symm hj)]
      next => rfl
  · rw [Finset.sum_eq_zero, BitVec.getLsbD_of_ge w i (Nat.le_of_not_lt hi)]
    · rfl
    · intro j hj
      split
      next =>
        rw [coeff_X_pow, if_neg]
        rintro rfl
        exact hi (Finset.mem_range.mp hj)
      next => rfl

theorem ofBits_xor (a b : BitVec n) : ofBits (a ^^^ b) = ofBits a + ofBits b := by
  ext i
  rw [coeff_add, coeff_ofBits, coeff_ofBits, coeff_ofBits, BitVec.getLsbD_xor]
  cases a.getLsbD i <;> cases b.getLsbD i <;> decide

theorem degree_ofBits_lt (w : BitVec n) : (ofBits w).degree < n := by
  rw [degree_lt_iff_coeff_zero]
  intro i hi
  rw [coeff_ofBits, BitVec.getLsbD_of_ge w i hi]
  rfl

theorem monic_generator (p : BitVec n) : (generator p).Monic :=
  monic_X_pow_add (degree_ofBits_lt p)

theorem degree_generator (p : BitVec n) : (generator p).degree = n := by
  rw [generator, degree_add_eq_left_of_degree_lt, degree_X_pow]
  rw [degree_X_pow]
  exact degree_ofBits_lt p

theorem coeff_carry (b : Bool) (i : Nat) :
    (if b then (X : Polynomial (ZMod 2)) ^ n else 0).coeff i = if b ∧ i = n then 1 else 0 := by
  cases b <;> simp [coeff_X_pow]

/-- Multiplying by `X` shifts the register, and the top bit leaves it. -/
theorem X_mul_ofBits (w : BitVec n) :
    X * ofBits w = ofBits (w <<< 1) + if w.msb then X ^ n else 0 := by
  ext i
  rw [coeff_add, coeff_ofBits, BitVec.getLsbD_shiftLeft, coeff_carry]
  cases i with
  | zero =>
    rw [coeff_X_mul_zero]
    cases n with
    | zero => simp [BitVec.msb, BitVec.getMsbD]
    | succ n => simp
  | succ i =>
    rw [coeff_X_mul, coeff_ofBits]
    by_cases hi : i + 1 < n
    · simp [hi, Nat.ne_of_lt hi]
    by_cases he : i + 1 = n
    · subst he
      simp [BitVec.msb_eq_getLsbD_last]
    · rw [BitVec.getLsbD_of_ge w i (by omega)]
      simp [hi, he]

theorem generator_dvd_shift (p w : BitVec n) :
    generator p ∣ X * ofBits w - ofBits (shift p w) := by
  rw [X_mul_ofBits, shift]
  split
  next =>
    rw [ofBits_xor, add_sub_add_left_eq_sub, CharTwo.sub_eq_add, ← generator]
  next => rw [add_zero, sub_self]; exact dvd_zero _

theorem generator_dvd_shifts (p w : BitVec n) (j : Nat) :
    generator p ∣ X ^ j * ofBits w - ofBits ((shift p)^[j] w) := by
  induction j generalizing w with
  | zero => simp
  | succ j ih =>
    have h := dvd_add ((generator_dvd_shift p w).mul_left (X ^ j)) (ih (shift p w))
    rw [Function.iterate_succ_apply]
    convert h using 1
    ring

theorem ofBits_top (hk : k ≤ n) (b : BitVec k) :
    ofBits (b.setWidth n <<< (n - k)) = X ^ (n - k) * ofBits b := by
  ext i
  rw [coeff_ofBits, BitVec.getLsbD_shiftLeft, BitVec.getLsbD_setWidth, coeff_X_pow_mul',
    coeff_ofBits]
  by_cases hi : n - k ≤ i
  · rw [if_pos hi]
    by_cases hn : i < n
    · have hlt : i - (n - k) < n := by omega
      simp [hn, hi, hlt]
    · rw [BitVec.getLsbD_of_ge b _ (by omega)]
      simp
  · simp [hi, Nat.lt_of_not_le hi]

theorem generator_dvd_feed (hk : k ≤ n) (p w : BitVec n) (b : BitVec k) :
    generator p ∣ X ^ k * ofBits w + X ^ n * ofBits b - ofBits (feed p w b) := by
  have h := generator_dvd_shifts p (w ^^^ (b.setWidth n <<< (n - k))) k
  rw [ofBits_xor, ofBits_top hk, mul_add, ← mul_assoc, ← pow_add, Nat.add_sub_cancel' hk] at h
  exact h

theorem generator_dvd_checksum (hk : k ≤ n) (p w : BitVec n) (bs : List (BitVec k)) :
    generator p ∣ X ^ (k * bs.length) * ofBits w + X ^ n * message bs -
      ofBits (checksum p w bs) := by
  induction bs generalizing w with
  | nil => simp [message, checksum]
  | cons b bs ih =>
    have h := dvd_add ((generator_dvd_feed hk p w b).mul_left (X ^ (k * bs.length)))
      (ih (feed p w b))
    rw [checksum, List.foldl_cons, ← checksum, message, List.length_cons]
    convert h using 1
    ring

/-- `c` is the remainder of the message by the generator, with the start value `w` in front
of the message. -/
def IsCrc (p w : BitVec n) (bs : List (BitVec k)) (c : BitVec n) : Prop :=
  ofBits c = (X ^ (k * bs.length) * ofBits w + X ^ n * message bs) %ₘ generator p

theorem isCrc_checksum (hk : k ≤ n) (p w : BitVec n) (bs : List (BitVec k)) :
    IsCrc p w bs (checksum p w bs) := by
  rw [IsCrc, modByMonic_eq_of_dvd_sub (monic_generator p) (generator_dvd_checksum hk p w bs)]
  refine ((modByMonic_eq_self_iff (monic_generator p)).mpr ?_).symm
  rw [degree_generator]
  exact degree_ofBits_lt _

end BdkRtt.Lib.Crc
