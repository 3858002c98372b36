import BdkRtt.Flash.DriverLaws

namespace BdkRtt.Flash

open Lib

/-- The byte at an address, of which there are `2 ^ 24`. -/
def Chip.byteAt (f : Chip) (a : Nat) : Option UInt8 := if a < 2 ^ 24 then some (f.cells a) else none

/-- A read gives the bytes from `address` on, and leaves every byte as it is. -/
structure ReadLaw (f : Chip) (address len : UInt32) : Prop where
  length : (flashReadData f address len).2.length = len.toNat
  buffer : ∀ i < len.toNat, (flashReadData f address len).2[i]? = f.byteAt (address.toNat + i)
  cells : (flashReadData f address len).1.cells = f.cells

/-- An erase reaches the sector of `address`, or nothing where `address` is not on the chip. -/
structure SectorLaw (f : Chip) (address : UInt32) : Prop where
  inside : address.toNat < f.flashSize.toNat → ∀ k, (flashEraseSector f address).cells k =
    if k / 4096 = address.toNat / 4096 then 0xff else f.cells k
  outside : f.flashSize.toNat ≤ address.toNat → (flashEraseSector f address).cells = f.cells

/-- `erase_addr` -/
def eraseAddr (address : UInt32) : UInt32 := address &&& 0xfff000

/-- The sector at `address` is erased already. -/
def Chip.Blank (f : Chip) (address : UInt32) : Prop :=
  ∀ k, k / 4096 = address.toNat / 4096 → f.cells k = 0xff

variable {f : Chip} {address len : UInt32}

theorem readLaw_iff (f : Chip) (address len : UInt32) :
    ReadLaw f address len ↔ len = 0 ∨ address.toNat + len.toNat ≤ 2 ^ 24 := by
  constructor
  · intro h
    by_contra hno
    obtain ⟨hlen, hfar⟩ := not_or.mp hno
    have hpos : len.toNat ≠ 0 := fun h => hlen (UInt32.toNat_inj.mp h)
    have hlast : len.toNat - 1 < len.toNat := by omega
    have hbyte := h.buffer _ hlast
    rw [Chip.byteAt, if_neg (by omega), List.getElem?_eq_none_iff, h.length] at hbyte
    omega
  · rintro (rfl | hfit)
    · exact ⟨rfl, fun i hi => absurd hi (Nat.not_lt_zero i), rfl⟩
    · obtain ⟨hsame, hread⟩ := flashReadData_spec f address len hfit
      refine ⟨by rw [hread, Mem.length_read], fun i hi => ?_, hsame.cells⟩
      rw [hread, Chip.byteAt, if_pos (by omega), Mem.read, List.getElem?_map,
        List.getElem?_range hi]
      rfl

theorem eraseAddr_lt (address : UInt32) : (eraseAddr address).toNat < 2 ^ 24 := by
  rw [eraseAddr, UInt32.toNat_and]
  exact Nat.lt_of_le_of_lt Nat.and_le_right (by decide)

/-- The configured chips have whole sectors. -/
theorem flashConfigSizes_sector {size : UInt32} (h : size ∈ flashConfigSizes) :
    size.toNat % 4096 = 0 ∧ size.toNat ≤ 2 ^ 23 := by
  have hall : ∀ size ∈ flashConfigSizes, size.toNat % 4096 = 0 ∧ size.toNat ≤ 2 ^ 23 := by
    simp [flashConfigSizes]
  exact hall size h

theorem sectorLaw_of_lt (hf : f.flashSize ∈ flashConfigSizes) (hlt : address.toNat < 2 ^ 24) :
    SectorLaw f address := by
  obtain ⟨hsector, -⟩ := flashConfigSizes_sector hf
  constructor
  · intro hin k
    have hbase : address.toNat / 4096 * 4096 < f.flashSize.toNat := by omega
    simp only [flashEraseSector_cells f hlt, hbase, true_and]
  · intro hout
    have hbase : ¬ address.toNat / 4096 * 4096 < f.flashSize.toNat := by omega
    funext k
    rw [flashEraseSector_cells f hlt, if_neg fun h => hbase h.1]

/-- From `2 ^ 24` on, what is erased is the sector whose address is left by the mask. -/
theorem sectorLaw_of_ge (hf : f.flashSize ∈ flashConfigSizes) (hge : 2 ^ 24 ≤ address.toNat) :
    SectorLaw f address ↔ f.flashSize ≤ eraseAddr address ∨ f.Blank (eraseAddr address) := by
  have hsize := (flashConfigSizes_sector hf).2
  have hlaw : SectorLaw f address ↔ (flashEraseSector f address).cells = f.cells :=
    ⟨fun h => h.outside (by omega), fun h => ⟨fun hin => by omega, fun _ => h⟩⟩
  rw [hlaw, flashEraseSector]
  change (if eraseAddr address ≥ f.flashSize then f else f.operate (operateWord (eraseAddr address)
    flashOpcodeSe f.operateSw) []).cells = f.cells ↔ _
  split
  next hoff => exact iff_of_true rfl (.inl hoff)
  next hon =>
    rw [operate_se f (eraseAddr_lt address)]
    constructor
    · intro hcells
      refine .inr fun k hk => ?_
      have := congrFun hcells k
      rw [← this]
      exact if_pos hk
    · rintro (hoff | hblank)
      · exact absurd hoff hon
      · funext k
        simp only
        split
        next hk => exact (hblank k hk).symm
        next => rfl

/-- The reads and the erases that act on the place they are given. -/
theorem flash_read_erase_iff (hf : f.flashSize ∈ flashConfigSizes) (address len : UInt32) :
    (ReadLaw f address len ↔ len = 0 ∨ address.toNat + len.toNat ≤ 2 ^ 24) ∧
    (SectorLaw f address ↔ address.toNat < 2 ^ 24 ∨ f.flashSize ≤ eraseAddr address ∨
      f.Blank (eraseAddr address)) := by
  refine ⟨readLaw_iff f address len, ?_⟩
  rcases Nat.lt_or_ge address.toNat (2 ^ 24) with hlt | hge
  · exact iff_of_true (sectorLaw_of_lt hf hlt) (.inl hlt)
  · rw [sectorLaw_of_ge hf hge, or_iff_right (Nat.not_lt.mpr hge)]

def clearedChip : Chip where
  flashSize := 0x400000
  cells _ := 0
  operateSw := 0
  dataFlashSw := []

theorem flash_read_erase_iff_zero : ReadLaw clearedChip 100 70 ∧ SectorLaw clearedChip 0x1234 := by
  have hf : clearedChip.flashSize ∈ flashConfigSizes := by decide
  exact ⟨(flash_read_erase_iff hf 100 70).1.mpr (.inr (by decide)),
    (flash_read_erase_iff hf 0x1234 0).2.mpr (.inl (by decide))⟩

/-- The address bits above the field change the kind of the operation: this read of one byte
erases the first sector.  An erase at `2 ^ 24` erases it too. -/
theorem flash_read_erases : (flashReadData clearedChip 0x08000000 1).1.cells 0 = 0xff ∧
    (flashEraseSector clearedChip 0x01000000).cells 0 = 0xff ∧
    ¬ ReadLaw clearedChip 0x08000000 1 ∧ ¬ SectorLaw clearedChip 0x01000000 := by
  have hread : (flashReadData clearedChip 0x08000000 1).1.cells 0 = 0xff := by decide
  have herase : (flashEraseSector clearedChip 0x01000000).cells 0 = 0xff := by decide
  refine ⟨hread, herase, fun h => ?_, fun h => ?_⟩
  · rw [h.cells] at hread
    exact absurd hread (by decide)
  · rw [h.outside (by decide)] at herase
    exact absurd herase (by decide)

end BdkRtt.Flash
