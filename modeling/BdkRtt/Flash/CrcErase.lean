import BdkRtt.Flash.CrcRead
import BdkRtt.Flash.WriteData

/-! The sectors that the erase of the CRC port reaches. -/

namespace BdkRtt.Flash

open Lib

section Loop

/-- The rounds of `erase` for so many bytes. -/
def eraseRounds (n : Nat) : Nat := (n - 1) / 4096 + 1

variable {f : Chip} {addr size : UInt32}

theorem eraseRounds_of_le {n : Nat} (h : n ≤ 4096) : eraseRounds n = 1 := by
  unfold eraseRounds
  omega

theorem eraseRounds_of_gt {n : Nat} (h : 4096 < n) :
    eraseRounds n = eraseRounds (n - 4096) + 1 := by
  unfold eraseRounds
  omega

/-- The chip after the `n` sectors from `addr` on have been erased, as far as it has them. -/
structure ErasedFrom (f : Chip) (addr n : Nat) (f' : Chip) : Prop where
  flashSize : f'.flashSize = f.flashSize
  cells : ∀ k, f'.cells k =
    if addr ≤ k ∧ k < addr + 4096 * n ∧ k / 4096 * 4096 < f.flashSize.toNat then 0xff
    else f.cells k

theorem erasedFrom_sector (f : Chip) (ha : addr.toNat % 4096 = 0) (hlt : addr.toNat < 2 ^ 24) :
    ErasedFrom f addr.toNat 1 (flashEraseSector f addr) := by
  refine ⟨flashEraseSector_flashSize f, fun k => ?_⟩
  rw [flashEraseSector_cells f hlt]
  refine if_congr ?_ rfl rfl
  omega

theorem ErasedFrom.append {f' f'' : Chip} {a n m : Nat} (h : ErasedFrom f a n f')
    (h' : ErasedFrom f' (a + 4096 * n) m f'') : ErasedFrom f a (n + m) f'' := by
  refine ⟨h'.flashSize.trans h.flashSize, fun k => ?_⟩
  rw [h'.cells, h.cells, h.flashSize, Nat.mul_add]
  by_cases hlow : k < a + 4096 * n
  · rw [if_neg fun hk => absurd hk.1 (Nat.not_le.mpr hlow)]
    refine if_congr ?_ rfl rfl
    omega
  · by_cases hin : k < a + 4096 * n + 4096 * m ∧ k / 4096 * 4096 < f.flashSize.toNat
    · rw [if_pos ⟨Nat.le_of_not_lt hlow, hin⟩, if_pos ⟨by omega, by omega, hin.2⟩]
    · rw [if_neg fun hk => hin hk.2, if_neg (by omega), if_neg (by omega)]

theorem eraseLoop_spec (f : Chip) (addr size : UInt32) {fuel : Nat}
    (hfuel : size.toNat / 4096 < fuel)
    (ha : addr.toNat % 4096 = 0)
    (hfit : addr.toNat + 4096 * eraseRounds size.toNat ≤ 2 ^ 24) :
    ErasedFrom f addr.toNat (eraseRounds size.toNat) (eraseLoop fuel f addr size).1 ∧
      (eraseLoop fuel f addr size).2.toNat = addr.toNat + 4096 * eraseRounds size.toNat := by
  induction fuel generalizing f addr size with
  | zero => cases hfuel
  | succ fuel ih =>
    have hpos : 1 ≤ eraseRounds size.toNat := Nat.le_add_left ..
    have hnext : (addr + 4096).toNat = addr.toNat + 4096 :=
      toNat_add_of_lt (by simp only [UInt32.reduceToNat]; omega)
    have hfirst := erasedFrom_sector f ha (by omega)
    unfold eraseLoop
    dsimp only
    by_cases hle : size.toNat ≤ 4096
    · have hzero : (if size < 4096 then 0 else size - 4096) = 0 := by
        split
        next => rfl
        next hge =>
          have hge' : 4096 ≤ size.toNat := Nat.le_of_not_lt hge
          have : size = 4096 := UInt32.toNat_inj.mp (Nat.le_antisymm hle hge')
          rw [this]
          rfl
      rw [hzero, if_pos rfl, eraseRounds_of_le hle, hnext]
      exact ⟨hfirst, rfl⟩
    · have hgt : 4096 < size.toNat := Nat.lt_of_not_le hle
      have hge : ¬ size < 4096 := fun h => absurd (UInt32.lt_iff_toNat_lt.mp h) (by
        simp only [UInt32.reduceToNat]
        omega)
      have hsub : (size - 4096).toNat = size.toNat - 4096 :=
        UInt32.toNat_sub_of_le _ _ (UInt32.le_iff_toNat_le.mpr (Nat.le_of_lt hgt))
      have hne : size - 4096 ≠ 0 := fun h => by
        rw [h] at hsub
        simp only [UInt32.reduceToNat] at hsub
        omega
      rw [eraseRounds_of_gt hgt] at hfit ⊢
      obtain ⟨hrest, hend⟩ := ih (flashEraseSector f addr) (addr + 4096) (size - 4096)
        (by rw [hsub]; omega) (by rw [hnext]; omega)
        (by rw [hnext, hsub]; omega)
      rw [hsub, hnext] at hrest hend
      rw [if_neg hge, if_neg hne]
      refine ⟨?_, by rw [hend]; omega⟩
      rw [Nat.add_comm]
      exact hfirst.append hrest

end Loop

section Law

variable {f : Chip} {offset size : Nat}

/-- The place behind the blocks that hold the bytes. -/
def eraseEnd (offset size : Nat) : Nat := blockAddr ((offset + size - 1) / 32 + 1)

/-- The sector that the first of the blocks begins in. -/
def eraseStart (offset : Nat) : Nat := blockAddr (offset / 32) / 4096 * 4096

/-- The sectors that are erased, counted by the bytes of the whole blocks in `size`, reach to the
end of the last block. -/
def EraseReaches (offset size : Nat) : Prop :=
  eraseEnd offset size ≤ eraseStart offset + 4096 * eraseRounds (34 * (size / 32))

instance (offset size : Nat) : Decidable (EraseReaches offset size) :=
  inferInstanceAs (Decidable (_ ≤ _))

/-- The blocks are erased and can be written, and the size returned is, in logical bytes, no less
than what was asked for. -/
structure CrcEraseLaw (f : Chip) (offset size : Nat) : Prop where
  erased : ∀ k, blockAddr (offset / 32) ≤ k → k < eraseEnd offset size →
    (erase f offset size).1.cells k = 0xff
  writes : ∀ buf : List UInt8, buf.length = size → 32 ∣ offset →
    ∃ f', write (erase f offset size).1 offset buf = some (f', size) ∧
      ∀ k, k < (encode buf).length →
        f'.cells (blockAddr (offset / 32) + k) = (encode buf).getD k 0xff
  ret : 34 * size ≤ 32 * (erase f offset size).2.toNat

theorem eraseSize_toNat (hend : eraseEnd offset size ≤ 2 ^ 23) :
    (UInt32.ofNat (size / 32 * 34)).toNat = 34 * (size / 32) := by
  have hlt : size / 32 * 34 < UInt32.size := by
    unfold eraseEnd at hend
    rw [blockAddr_eq] at hend
    rw [UInt32.size]
    omega
  rw [UInt32.toNat_ofNat_of_lt' hlt, Nat.mul_comm]

theorem eraseStart_toNat (hend : eraseEnd offset size ≤ 2 ^ 23) (hsize : 0 < size) :
    (bekenOnchipFlashCrcAddr + (UInt32.ofNat (offset / 32 * 34) &&& 0x00fff000)).toNat =
      eraseStart offset := by
  have hlt : 34 * (offset / 32) < 2 ^ 23 := by
    unfold eraseEnd at hend
    rw [blockAddr_eq] at hend
    omega
  have hnat : (UInt32.ofNat (offset / 32 * 34)).toNat = 34 * (offset / 32) := by
    rw [UInt32.toNat_ofNat_of_lt' (show offset / 32 * 34 < UInt32.size by rw [UInt32.size]; omega),
      Nat.mul_comm]
  have hsector := sectorAddr_toNat (a := UInt32.ofNat (offset / 32 * 34)) (by omega)
  rw [show bekenOnchipFlashCrcAddr = 0 from rfl, UInt32.zero_add, hsector, hnat, eraseStart,
    blockAddr_eq]

/-- What `erase` does, for a range of the chip. -/
theorem erase_spec (f : Chip) (hsize : 0 < size) (hend : eraseEnd offset size ≤ 2 ^ 23) :
    ErasedFrom f (eraseStart offset) (eraseRounds (34 * (size / 32))) (erase f offset size).1 ∧
      (erase f offset size).2.toNat = 4096 * eraseRounds (34 * (size / 32)) := by
  have hn := eraseSize_toNat hend
  have ha := eraseStart_toNat hend hsize
  have hfit : eraseStart offset + 4096 * eraseRounds (34 * (size / 32)) ≤ 2 ^ 24 := by
    unfold eraseEnd at hend
    unfold eraseStart eraseRounds
    rw [blockAddr_eq] at hend ⊢
    omega
  unfold erase
  dsimp only
  generalize bekenOnchipFlashCrcAddr + (UInt32.ofNat (offset / 32 * 34) &&& 0x00fff000) = addr at ha
  generalize UInt32.ofNat (size / 32 * 34) = total at hn
  have haligned : addr.toNat % 4096 = 0 := by
    rw [ha]
    exact Nat.mul_mod_left _ _
  obtain ⟨herased, hret⟩ := eraseLoop_spec f addr total (Nat.lt_succ_self _)
    haligned (by rw [ha, hn]; exact hfit)
  rw [← hn, ← ha]
  refine ⟨herased, ?_⟩
  rw [UInt32.toNat_sub_of_le _ _ (UInt32.le_iff_toNat_le.mpr (by rw [hret]; omega)), hret,
    Nat.add_sub_cancel_left]

theorem crcEraseLaw_of_reaches (hsize : 0 < size) (hchip : f.flashSize ∈ flashConfigSizes)
    (hend : eraseEnd offset size ≤ f.flashSize.toNat) (h : EraseReaches offset size) :
    CrcEraseLaw f offset size := by
  have hflash := (flashConfigSizes_line hchip).2
  obtain ⟨herased, hret⟩ := erase_spec f hsize (Nat.le_trans hend hflash)
  have hcells : ∀ k, blockAddr (offset / 32) ≤ k → k < eraseEnd offset size →
      (erase f offset size).1.cells k = 0xff := by
    intro k hle hlt
    rw [herased.cells]
    refine if_pos ⟨Nat.le_trans (Nat.div_mul_le_self ..) hle, Nat.lt_of_lt_of_le hlt h, ?_⟩
    exact Nat.lt_of_le_of_lt (Nat.div_mul_le_self ..) (Nat.lt_of_lt_of_le hlt hend)
  refine ⟨hcells, fun buf hbuf hal => ?_, ?_⟩
  · obtain ⟨q, hq⟩ := hal
    have hlast : (offset + size - 1) / 32 + 1 = offset / 32 + blocks size := by
      unfold blocks
      omega
    have hfits : WriteCall.Fits ⟨offset, buf⟩ (erase f offset size).1 := by
      rw [WriteCall.Fits, herased.flashSize, hbuf, ← hlast]
      exact hend
    obtain ⟨f', hwrite, hprog⟩ := write_programs (w := ⟨offset, buf⟩) ⟨q, hq⟩
      (by rw [herased.flashSize]; omega) hfits
    refine ⟨f', hwrite.trans (congrArg (fun n => some (f', n)) hbuf), fun k hk => ?_⟩
    rw [length_encode, hbuf] at hk
    rw [hprog.inside (Nat.le_add_right ..), Nat.add_sub_cancel_left,
      hcells _ (Nat.le_add_right ..), UInt8.and_comm]
    · exact and_ones _
    · unfold eraseEnd
      rw [hlast, blockAddr_eq, blockAddr_eq]
      omega
  · rw [hret]
    unfold EraseReaches eraseEnd eraseStart at h
    rw [blockAddr_eq, blockAddr_eq] at h
    omega

theorem reaches_of_erased (hsize : 0 < size) (hchip : f.flashSize ∈ flashConfigSizes)
    (hend : eraseEnd offset size ≤ f.flashSize.toNat) (hzero : ∀ k, f.cells k = 0)
    (h : CrcEraseLaw f offset size) : EraseReaches offset size := by
  have hflash := (flashConfigSizes_line hchip).2
  obtain ⟨herased, -⟩ := erase_spec f hsize (Nat.le_trans hend hflash)
  by_contra hbad
  have hlast : blockAddr (offset / 32) ≤ eraseEnd offset size - 1 ∧
      eraseEnd offset size - 1 < eraseEnd offset size := by
    unfold eraseEnd
    rw [blockAddr_eq, blockAddr_eq]
    omega
  have hcell := h.erased _ hlast.1 hlast.2
  unfold EraseReaches at hbad
  rw [herased.cells, if_neg fun hk => ?_, hzero] at hcell
  · exact absurd hcell (by decide)
  · omega

/-- `erase` does what a write of the range needs, whatever the cells of the chip, exactly when its
sectors reach to the end of the last block. -/
theorem erase_law (flashSize : UInt32) (hchip : flashSize ∈ flashConfigSizes) (offset size : Nat)
    (hsize : 0 < size) (hend : eraseEnd offset size ≤ flashSize.toNat) :
    (∀ f : Chip, f.flashSize = flashSize → CrcEraseLaw f offset size) ↔
      EraseReaches offset size := by
  constructor
  · intro h
    exact reaches_of_erased (f := { zeroChip with flashSize := flashSize }) hsize hchip hend
      (fun _ => rfl) (h _ rfl)
  · rintro h f rfl
    exact crcEraseLaw_of_reaches hsize hchip hend h

theorem erase_law_sector : CrcEraseLaw zeroChip 4096 4096 :=
  (erase_law 0x400000 (by decide) 4096 4096 (by decide) (by decide)).mpr (by decide) zeroChip rfl

/-- Two sectors' worth of logical bytes from 0xf000 on. -/
theorem erase_stops_short : ¬ ∀ (f : Chip), f.flashSize ∈ flashConfigSizes →
    ∀ offset size : Nat, 0 < size → eraseEnd offset size ≤ f.flashSize.toNat →
      CrcEraseLaw f offset size := by
  intro hall
  have hlaw := hall zeroChip (by decide) 0xf000 0x2000 (by decide) (by decide)
  have hreach := reaches_of_erased (by decide) (by decide) (by decide) (fun _ => rfl) hlaw
  exact absurd hreach (by decide)

end Law

end BdkRtt.Flash
