import BdkRtt.Flash.CrcImage

/-! The read of the CRC port, for any alignment and size. -/

namespace BdkRtt.Flash

open Lib

section Stages

variable {f : Chip} {offset size : Nat}

/-- The logical bytes of the image. -/
def logicalBytes (f : Chip) (offset size : Nat) : List UInt8 :=
  (List.range size).map fun i => f.cells (physAddr (offset + i))

/-- What `read` takes before it comes to the beginning of a block. -/
def stage0Len (offset size : Nat) : Nat := if size > 32 then 32 - offset % 32 else size

theorem logicalBytes_add (f : Chip) (offset n m : Nat) :
    logicalBytes f offset (n + m) = logicalBytes f offset n ++ logicalBytes f (offset + n) m := by
  unfold logicalBytes
  rw [List.range_add, List.map_append, List.map_map]
  refine congrArg _ (List.map_congr_left fun i _ => ?_)
  rw [Function.comp_apply, Nat.add_assoc]

/-- Logical bytes of one block lie one behind the other. -/
theorem logicalBytes_inBlock (h : offset % 32 + size ≤ 32) :
    logicalBytes f offset size = f.cells.read (physAddr offset) size := by
  unfold logicalBytes Mem.read
  refine List.map_congr_left fun i hi => congrArg f.cells ?_
  have hlt := List.mem_range.mp hi
  unfold physAddr blockAddr
  omega

/-- From the beginning of a block on `read` gives the logical bytes. -/
theorem readBlocks_logical {fuel n b : Nat} {off : UInt32} (hoff : off.toNat = blockAddr b)
    (hfuel : n ≤ fuel) (hfit : ∀ i < n, physAddr (32 * b + i) < 2 ^ 24) :
    (readBlocks fuel f off n).2 = logicalBytes f (32 * b) n := by
  rw [readBlocks_spec hfuel ?_]
  · refine List.map_congr_left fun i _ => congrArg f.cells ?_
    rw [hoff]
    unfold physAddr blockAddr
    omega
  · intro hn
    have hlast := hfit (n - 1) (by omega)
    rw [hoff]
    unfold physAddr at hlast
    unfold blockAddr at hlast ⊢
    omega

theorem logicalBytes_congr {f' : Chip} (h : f'.cells = f.cells) :
    logicalBytes f' offset size = logicalBytes f offset size := by
  unfold logicalBytes
  rw [h]

theorem physAddr_add_le (offset i : Nat) : physAddr offset + i ≤ physAddr (offset + i) := by
  unfold physAddr blockAddr
  omega

theorem stage0Len_le (hpos : 0 < offset % 32) (hsize : size ≠ 0) :
    0 < stage0Len offset size ∧ stage0Len offset size ≤ size ∧ stage0Len offset size ≤ 32 := by
  unfold stage0Len
  split <;> omega

/-- The word that an unaligned read starts from. -/
theorem stage0Offset_toNat (h : physAddr offset < 2 ^ 24) :
    (bekenOnchipFlashCrcAddr + UInt32.ofNat (offset / 32 * 34) +
      UInt32.ofNat (offset % 32)).toNat = physAddr offset := by
  have hblock : blockAddr (offset / 32) ≤ 2 ^ 24 := by
    unfold physAddr at h
    omega
  have hpos : (UInt32.ofNat (offset % 32)).toNat = offset % 32 :=
    UInt32.toNat_ofNat_of_lt' (show offset % 32 < UInt32.size by rw [UInt32.size]; omega)
  have hsum := blockAddr_toNat hblock
  rw [toNat_add_of_lt (by rw [hsum, hpos]; omega), hsum, hpos]
  rfl

theorem read_eq (hpos : 0 < offset % 32) (hsize : size ≠ 0) : (read f offset size).2 =
    let stage0Offset := bekenOnchipFlashCrcAddr + UInt32.ofNat (offset / 32 * 34) +
      UInt32.ofNat (offset % 32)
    let n := stage0Len offset size
    let first := flashRead f (UInt32.ofNat n) stage0Offset
    first.2 ++
      (readBlocks (size - n) first.1 (stage0Offset + UInt32.ofNat n + 2) (size - n)).2 := by
  have hn0 : (if size > 32 then 32 - offset % 32 else size) > 0 := (stage0Len_le hpos hsize).1
  unfold read
  dsimp only
  rw [if_pos hpos, if_pos hn0]
  rfl

/-- An unaligned read: some bytes from where the first one is, and then whole blocks. -/
theorem read_unaligned (hpos : 0 < offset % 32) (hsize : size ≠ 0)
    (hfit : ∀ i < size, physAddr (offset + i) < 2 ^ 24) :
    (read f offset size).2 = f.cells.read (physAddr offset) (stage0Len offset size) ++
      logicalBytes f (32 * (offset / 32 + 1)) (size - stage0Len offset size) := by
  obtain ⟨hn0, hle, h32⟩ := stage0Len_le hpos hsize
  have hlast := hfit (size - 1) (by omega)
  have hadd := physAddr_add_le offset (size - 1)
  have hphys := stage0Offset_toNat (hfit 0 (by omega) : physAddr (offset + 0) < 2 ^ 24)
  have hnat : (UInt32.ofNat (stage0Len offset size)).toNat = stage0Len offset size :=
    UInt32.toNat_ofNat_of_lt' (show stage0Len offset size < UInt32.size by rw [UInt32.size]; omega)
  rw [Nat.add_zero] at hphys
  rw [read_eq hpos hsize]
  dsimp only
  generalize bekenOnchipFlashCrcAddr + UInt32.ofNat (offset / 32 * 34) +
    UInt32.ofNat (offset % 32) = stage0Offset at hphys
  obtain ⟨hsame, hread⟩ := flashReadData_spec f stage0Offset
    (UInt32.ofNat (stage0Len offset size)) (by rw [hphys, hnat]; omega)
  rw [flashRead, hread, hphys, hnat]
  refine congrArg _ ?_
  by_cases hbig : size > 32
  · have hn : stage0Len offset size = 32 - offset % 32 := if_pos hbig
    have hoff : (stage0Offset + UInt32.ofNat (stage0Len offset size) + 2).toNat =
        blockAddr (offset / 32 + 1) := by
      have hsum : (stage0Offset + UInt32.ofNat (stage0Len offset size)).toNat =
          physAddr offset + stage0Len offset size := by
        rw [toNat_add_of_lt (by rw [hphys, hnat]; omega), hphys, hnat]
      rw [toNat_add_of_lt (by rw [hsum]; simp only [UInt32.reduceToNat]; omega), hsum, hn]
      simp only [UInt32.reduceToNat]
      unfold physAddr blockAddr
      omega
    rw [readBlocks_logical hoff (Nat.le_refl _), logicalBytes_congr hsame.cells]
    intro i hi
    have hin := hfit (32 - offset % 32 + i) (by omega)
    rwa [show offset + (32 - offset % 32 + i) = 32 * (offset / 32 + 1) + i by omega] at hin
  · have hn : size - stage0Len offset size = 0 := by
      rw [stage0Len, if_neg hbig, Nat.sub_self]
    rw [hn]
    rfl

end Stages

section Law

variable {offset size : Nat}

/-- The first block ends where the first stage of the read does, or holds all of it. -/
def ReadsWhole (offset size : Nat) : Prop :=
  offset % 32 = 0 ∨ 32 < size ∨ offset % 32 + size ≤ 32

theorem read_logical {f : Chip} (hfit : ∀ i < size, physAddr (offset + i) < 2 ^ 24)
    (h : ReadsWhole offset size) : (read f offset size).2 = logicalBytes f offset size := by
  by_cases hpos : offset % 32 = 0
  · exact read_aligned (Nat.dvd_of_mod_eq_zero hpos) hfit
  · by_cases hsize : size = 0
    · subst hsize
      unfold read
      dsimp only
      rw [if_pos (Nat.pos_of_ne_zero hpos)]
      rfl
    · have hn : offset % 32 + stage0Len offset size ≤ 32 := by
        unfold stage0Len
        split
        next => omega
        next hbig => exact (h.resolve_left hpos).resolve_left hbig
      obtain ⟨-, hle, -⟩ := stage0Len_le (Nat.pos_of_ne_zero hpos) hsize
      rw [read_unaligned (Nat.pos_of_ne_zero hpos) hsize hfit, ← logicalBytes_inBlock hn]
      conv_rhs => rw [← Nat.add_sub_cancel' hle, logicalBytes_add]
      refine congrArg _ ?_
      by_cases hbig : size > 32
      · have hstage : stage0Len offset size = 32 - offset % 32 := if_pos hbig
        rw [hstage, show offset + (32 - offset % 32) = 32 * (offset / 32 + 1) by omega]
      · have hrest : size - stage0Len offset size = 0 := by
          rw [stage0Len, if_neg hbig, Nat.sub_self]
        rw [hrest]
        rfl

/-- Otherwise there is a check byte among what is read. -/
theorem read_check {f : Chip} (hfit : ∀ i < size, physAddr (offset + i) < 2 ^ 24)
    (h : ¬ ReadsWhole offset size) : 32 - offset % 32 < size ∧
      (read f offset size).2[32 - offset % 32]? =
        some (f.cells (blockAddr (offset / 32) + 32)) := by
  obtain ⟨hpos, hsmall, hcross⟩ : offset % 32 ≠ 0 ∧ ¬ 32 < size ∧ ¬ offset % 32 + size ≤ 32 := by
    simpa only [ReadsWhole, not_or] using h
  have hlt : 32 - offset % 32 < size := by omega
  have hn : stage0Len offset size = size := if_neg hsmall
  refine ⟨hlt, ?_⟩
  rw [read_unaligned (Nat.pos_of_ne_zero hpos) (by omega) hfit, hn,
    List.getElem?_append_left (by rw [Mem.length_read]; exact hlt), Mem.read, List.getElem?_map,
    List.getElem?_range hlt, Option.map_some]
  refine congrArg (some ∘ f.cells) ?_
  unfold physAddr blockAddr
  omega

/-- The check of a block of zeros. -/
def zeroCrc : UInt16 := crc16CcittFalse (List.replicate 32 0)

/-- A chip with nothing but zeros in its blocks, and their checks. -/
def checkedChip : Chip where
  flashSize := 0x400000
  cells k :=
    if k % 34 < 32 then 0
    else if k % 34 = 32 then (zeroCrc >>> 8).toUInt8
    else zeroCrc.toUInt8
  operateSw := 0
  dataFlashSw := []

theorem blockAddr_eq (b : Nat) : blockAddr b = 34 * b := Nat.zero_add _

theorem checkedChip_data {b i : Nat} (hi : i < 32) : checkedChip.cells (blockAddr b + i) = 0 := by
  have hmod : (blockAddr b + i) % 34 < 32 := by
    rw [blockAddr_eq]
    omega
  exact if_pos hmod

theorem checkedChip_check (b : Nat) :
    checkedChip.cells (blockAddr b + 32) = (zeroCrc >>> 8).toUInt8 ∧
      checkedChip.cells (blockAddr b + 33) = zeroCrc.toUInt8 := by
  have h32 : (blockAddr b + 32) % 34 = 32 := by
    rw [blockAddr_eq]
    omega
  have h33 : (blockAddr b + 33) % 34 = 33 := by
    rw [blockAddr_eq]
    omega
  constructor
  · change (if _ then _ else if _ then _ else _) = _
    rw [h32, if_neg (by decide), if_pos rfl]
  · change (if _ then _ else if _ then _ else _) = _
    rw [h33, if_neg (by decide), if_neg (by decide)]

theorem checkedChip_holdsCrc (b : Nat) : HoldsCrc checkedChip b := by
  have hread : checkedChip.cells.read (blockAddr b) 32 = List.replicate 32 0 := by
    refine List.ext_getElem (by rw [Mem.length_read, List.length_replicate]) fun i hi _ => ?_
    rw [Mem.length_read] at hi
    rw [List.getElem_replicate]
    simpa [Mem.read] using checkedChip_data hi
  refine ⟨zeroCrc, (checkedChip_check b).1, (checkedChip_check b).2, ?_⟩
  rw [hread, zeroCrc, crc16CcittFalse_toBitVec]
  exact Crc.isCrc_checksum (by decide) _ _ _

theorem readsWhole_of_logical (hfit : ∀ i < size, physAddr (offset + i) < 2 ^ 24)
    (h : (read checkedChip offset size).2 = logicalBytes checkedChip offset size) :
    ReadsWhole offset size := by
  by_contra hbad
  obtain ⟨hlt, hcheck⟩ := read_check (f := checkedChip) hfit hbad
  rw [h, logicalBytes, List.getElem?_map, List.getElem?_range hlt, Option.map_some] at hcheck
  have hzero : checkedChip.cells (physAddr (offset + (32 - offset % 32))) = 0 :=
    checkedChip_data (Nat.mod_lt _ (by decide))
  rw [hzero, (checkedChip_check _).1] at hcheck
  exact absurd (Option.some.inj hcheck) (by decide +kernel)

/-- On every checked image `read` gives the logical bytes, exactly when the offset is at the
beginning of a block, the size is above 32, or the bytes are all in one block. -/
theorem read_law (offset size : Nat) (hfit : ∀ i < size, physAddr (offset + i) < 2 ^ 24) :
    (∀ f : Chip, (∀ b, HoldsCrc f b) → (read f offset size).2 = logicalBytes f offset size) ↔
      ReadsWhole offset size :=
  ⟨fun h => readsWhole_of_logical hfit (h checkedChip checkedChip_holdsCrc),
    fun h _ _ => read_logical hfit h⟩

theorem read_law_sixteen : (read checkedChip 40 16).2 = logicalBytes checkedChip 40 16 :=
  (read_law 40 16 fun i hi => by
    unfold physAddr
    rw [blockAddr_eq]
    omega).mpr (.inr (.inr (by decide))) checkedChip checkedChip_holdsCrc

/-- Two bytes on either side of the end of a block. -/
theorem read_check_byte : ¬ ∀ offset size : Nat, (∀ i < size, physAddr (offset + i) < 2 ^ 24) →
    ∀ f : Chip, (∀ b, HoldsCrc f b) → (read f offset size).2 = logicalBytes f offset size := by
  intro hall
  have hfit : ∀ i < 2, physAddr (31 + i) < 2 ^ 24 := by decide
  rcases readsWhole_of_logical hfit (hall 31 2 hfit checkedChip checkedChip_holdsCrc) with h | h | h
  all_goals exact absurd h (by decide)

end Law

end BdkRtt.Flash
