import BdkRtt.Lib.Circle
import BdkRtt.Audio.Gdma
import BdkRtt.Audio.RingBufferLaws

namespace BdkRtt.Audio

open Lib

namespace DmaRing

/-- `rb_get_fill_size_dma_read` and `rb_get_fill_size_dma_write` behind their sample. -/
def fillSize (capacity rp wp : UInt32) : UInt32 :=
  if wp ≥ rp then wp - rp else capacity - rp + wp

/-- `rb_get_free_size_dma_read` and `rb_get_free_size_dma_write` behind their sample. -/
def freeSize (capacity rp wp : UInt32) : UInt32 :=
  let freeSize := if wp ≥ rp then capacity - wp + rp else rp - wp
  if freeSize > rwpSafeInterval then freeSize - rwpSafeInterval else 0

/-- From a write index of zero on, only a read index of zero leaves nothing to read. -/
theorem eq_zero_of_fillSize {capacity rp : UInt32} (hlt : rp.toNat < capacity.toNat)
    (h : fillSize capacity rp 0 = 0) : rp = 0 := by
  have hle : rp ≤ capacity := UInt32.le_iff_toNat_le.mpr hlt.le
  by_contra hne
  have hnot : ¬ (0 : UInt32) ≥ rp := UInt32.not_le.mpr (toNat_pos hne)
  rw [fillSize, if_neg hnot, UInt32.add_zero, ← UInt32.toNat_inj,
    UInt32.toNat_sub_of_le _ _ hle] at h
  exact absurd h (Nat.sub_ne_zero_of_lt hlt)

/-- The read index stands for position `i` and the write index for one `len` further on.
The read index may rest at the capacity, where it stands for zero. -/
structure Marks (capacity rp wp : UInt32) (i len : Nat) : Prop where
  rp_le : rp.toNat ≤ capacity.toNat
  rp : rp.toNat ≡ i [MOD capacity.toNat]
  wp : wp.toNat = (i + len) % capacity.toNat
  len_lt : len < capacity.toNat

namespace Marks

variable {capacity rp wp : UInt32} {i len : Nat}

theorem pos (h : Marks capacity rp wp i len) : 0 < capacity.toNat :=
  Nat.zero_lt_of_lt h.len_lt

theorem wp_lt (h : Marks capacity rp wp i len) : wp.toNat < capacity.toNat := by
  rw [h.wp]
  exact Nat.mod_lt _ h.pos

theorem wp_modEq (h : Marks capacity rp wp i len) :
    wp.toNat ≡ i + len [MOD capacity.toNat] := by
  rw [h.wp]
  exact Nat.mod_modEq _ _

theorem above (h : Marks capacity rp wp i len) (hle : rp ≤ wp) :
    wp.toNat = rp.toNat + len := by
  have hle' : rp.toNat ≤ wp.toNat := hle
  have hwp := h.wp_lt
  have hrp : rp.toNat % capacity.toNat = i % capacity.toNat := h.rp
  rw [Nat.mod_eq_of_lt (by omega)] at hrp
  have hcases := add_mod_cases (i := i) h.len_lt
  rw [← hrp, ← h.wp] at hcases
  have := h.len_lt
  omega

theorem below (h : Marks capacity rp wp i len) (hlt : wp < rp) :
    wp.toNat + capacity.toNat = rp.toNat + len := by
  have hlt' : wp.toNat < rp.toNat := hlt
  have hle := h.rp_le
  have hlen := h.len_lt
  have hcases := add_mod_cases (i := i) h.len_lt
  have hmod : rp.toNat % capacity.toNat = i % capacity.toNat := h.rp
  rw [← hmod, ← h.wp] at hcases
  rcases Nat.lt_or_eq_of_le hle with hrp | hrp
  · rw [Nat.mod_eq_of_lt hrp] at hcases
    omega
  · rw [hrp, Nat.mod_self] at hcases
    omega

theorem tail (h : Marks capacity rp wp i len) :
    (capacity - wp).toNat = capacity.toNat - wp.toNat :=
  UInt32.toNat_sub_of_le _ _ (UInt32.le_of_lt h.wp_lt)

theorem remain_above (h : Marks capacity rp wp i len) (hle : rp ≤ wp) :
    (capacity - wp + rp).toNat = capacity.toNat - len := by
  have hcap := capacity.toNat_lt
  have hwp := h.above hle
  have hlt := h.wp_lt
  rw [UInt32.toNat_add, h.tail]
  omega

theorem remain_below (h : Marks capacity rp wp i len) (hlt : wp < rp) :
    (rp - wp).toNat = capacity.toNat - len := by
  have hwp := h.below hlt
  rw [UInt32.toNat_sub_of_le _ _ (UInt32.le_of_lt hlt)]
  omega

theorem fill_above (h : Marks capacity rp wp i len) (hle : rp ≤ wp) :
    (wp - rp).toNat = len := by
  have hwp := h.above hle
  rw [UInt32.toNat_sub_of_le _ _ hle]
  omega

theorem fillSize_eq (h : Marks capacity rp wp i len) :
    (fillSize capacity rp wp).toNat = len := by
  unfold fillSize
  split
  case isTrue hle => exact h.fill_above hle
  case isFalse hnot =>
    have hwp := h.below (UInt32.not_le.mp hnot)
    have hcap := capacity.toNat_lt
    have hrp := h.rp_le
    have hlen := h.len_lt
    rw [UInt32.toNat_add, UInt32.toNat_sub_of_le _ _ hrp]
    omega

theorem freeSize_eq (h : Marks capacity rp wp i len) :
    (freeSize capacity rp wp).toNat = capacity.toNat - 4 - len := by
  have hfree : (if wp ≥ rp then capacity - wp + rp else rp - wp).toNat =
      capacity.toNat - len := by
    split
    case isTrue hle => exact h.remain_above hle
    case isFalse hnot => exact h.remain_below (UInt32.not_le.mp hnot)
  rw [freeSize, sub_safeInterval_toNat, hfree, Nat.sub_right_comm]

end Marks

end DmaRing

end BdkRtt.Audio
