import BdkRtt.Lib.MemBlocks
import BdkRtt.Lib.Words

namespace BdkRtt.Flash.Disk

open Lib

def flashBase : UInt32 := 0x100000
def sectorSize : UInt32 := 4096
def diskSize : UInt32 := 1024 * 1024

def rtDeviceCtrlBlkGetgeome : UInt32 := 0x10

section Disk

/-- `struct rt_device_blk_geometry` -/
structure Geometry where
  sectorCount : UInt32
  bytesPerSector : UInt32
  blockSize : UInt32
deriving DecidableEq

inductive Err
  | eok
  | error
deriving DecidableEq

/-- The erase reaches the sector of the address. -/
def bekenFlashErase (m : Mem UInt8) (address : UInt32) : Mem UInt8 := fun k =>
  if k / 4096 = address.toNat / 4096 then 0xff else m k

def bekenFlashWrite (m : Mem UInt8) (address : UInt32) (data : List UInt8) (size : UInt32) :
    Mem UInt8 :=
  if size = 0 then m else m.write address.toNat (data.take size.toNat)

def bekenFlashRead (m : Mem UInt8) (address size : UInt32) : List UInt8 :=
  if size = 0 then [] else m.read address.toNat size.toNat

def flashDiskRead (m : Mem UInt8) (pos size : UInt32) : List UInt8 × UInt32 :=
  (bekenFlashRead m (flashBase + sectorSize * pos) (sectorSize * size), size)

/-- A round of the loop. -/
def writeRound (buffer : List UInt8) (pos : UInt32) (m : Mem UInt8) (i : Nat) : Mem UInt8 :=
  let m := bekenFlashErase m (flashBase + sectorSize * (pos + UInt32.ofNat i))
  -- `buffer` stays where it is
  bekenFlashWrite m (flashBase + sectorSize * (pos + UInt32.ofNat i)) buffer sectorSize

def flashDiskWrite (m : Mem UInt8) (pos : UInt32) (buffer : List UInt8) (size : UInt32) :
    Mem UInt8 × UInt32 :=
  ((List.range size.toNat).foldl (writeRound buffer pos) m, size)

def diskGeometry : Geometry where
  bytesPerSector := sectorSize
  sectorCount := diskSize / sectorSize
  blockSize := sectorSize

/-- `none` is `RT_NULL`. -/
def flashDiskControl (cmd : UInt32) (args : Option Geometry) : Err × Option Geometry :=
  if cmd = rtDeviceCtrlBlkGetgeome then
    match args with
    | none => (.error, none)
    | some _ => (.eok, some diskGeometry)
  else (.eok, args)

theorem flashDiskControl_getgeome (g : Geometry) :
    flashDiskControl rtDeviceCtrlBlkGetgeome (some g) = (.eok, some diskGeometry) := rfl

end Disk

section Law

/-- Sector `i` of a buffer. -/
def sector (buffer : List UInt8) (i : Nat) : List UInt8 := (buffer.drop (4096 * i)).take 4096

/-- The sectors of the buffer are written by one call each. -/
def writeOneByOne (m : Mem UInt8) (pos : UInt32) (buffer : List UInt8) (n : UInt32) : Mem UInt8 :=
  (List.range n.toNat).foldl
    (fun m i => (flashDiskWrite m (pos + UInt32.ofNat i) (sector buffer i) 1).1) m

/-- The place of a sector of the disk in the flash. -/
def place (pos : UInt32) : Nat := 0x100000 + 4096 * pos.toNat

structure WriteLaw (m : Mem UInt8) (pos : UInt32) (buffer : List UInt8) (n : UInt32) : Prop where
  readBack : (flashDiskRead (flashDiskWrite m pos buffer n).1 pos n).1 = buffer
  others : ∀ k, k < place pos ∨ place pos + 4096 * n.toNat ≤ k →
    (flashDiskWrite m pos buffer n).1 k = m k
  oneByOne : (flashDiskWrite m pos buffer n).1 = writeOneByOne m pos buffer n

end Law

section Rounds

variable {m : Mem UInt8} {pos n : UInt32} {buffer : List UInt8} {i : Nat}

theorem toNat_add_ofNat (h : pos.toNat + i ≤ 256) :
    (pos + UInt32.ofNat i).toNat = pos.toNat + i := by
  have hi : (UInt32.ofNat i).toNat = i := UInt32.toNat_ofNat_of_lt' (by change i < 2 ^ 32; omega)
  rw [toNat_add_of_lt (by omega), hi]

theorem address_place (h : pos.toNat ≤ 256) :
    (flashBase + sectorSize * pos).toNat = place pos := by
  have hmul : (sectorSize * pos).toNat = 4096 * pos.toNat :=
    toNat_mul_of_lt (by change 4096 * pos.toNat < 2 ^ 32; omega)
  have hbase : flashBase.toNat = 0x100000 := rfl
  rw [toNat_add_of_lt (by omega), hmul]
  rfl

/-- What is erased for a sector is written afterwards. -/
theorem erase_write (h : pos.toNat ≤ 256) (hlen : 4096 ≤ buffer.length) :
    bekenFlashWrite (bekenFlashErase m (flashBase + sectorSize * pos))
      (flashBase + sectorSize * pos) buffer sectorSize =
        m.write (place pos) (buffer.take 4096) := by
  have htake : (buffer.take 4096).length = 4096 := List.length_take_of_le hlen
  rw [bekenFlashWrite, if_neg (by decide), address_place h]
  apply Mem.write_over
  intro k hk
  rw [bekenFlashErase, address_place h, if_neg]
  intro hsame
  change k < place pos ∨ place pos + (buffer.take 4096).length ≤ k at hk
  rw [htake] at hk
  unfold place at hk hsame
  omega

theorem writeRound_eq (h : pos.toNat + i ≤ 256) (hlen : 4096 ≤ buffer.length) :
    writeRound buffer pos m i = m.write (place pos + 4096 * i) (buffer.take 4096) := by
  have hadd := toNat_add_ofNat h
  have hplace : place (pos + UInt32.ofNat i) = place pos + 4096 * i := by
    unfold place
    omega
  rw [writeRound, erase_write (by omega) hlen, hplace]

theorem flashDiskWrite_eq (h : pos.toNat + n.toNat ≤ 256) (hlen : n ≠ 0 → 4096 ≤ buffer.length) :
    (flashDiskWrite m pos buffer n).1 =
      m.write (place pos) ((List.range n.toNat).flatMap fun _ => buffer.take 4096) := by
  rw [flashDiskWrite]
  apply Mem.foldl_write
  · intro k hk
    have hne : n ≠ 0 := by
      rintro rfl
      exact absurd hk (Nat.not_lt_zero k)
    exact List.length_take_of_le (hlen hne)
  · intro m k hk
    have hne : n ≠ 0 := by
      rintro rfl
      exact absurd hk (Nat.not_lt_zero k)
    exact writeRound_eq (by omega) (hlen hne)

theorem length_sector (hlen : buffer.length = 4096 * n.toNat) (hi : i < n.toNat) :
    (sector buffer i).length = 4096 := by
  rw [sector, List.length_take, List.length_drop]
  omega

/-- One call for each sector puts the buffer there as it is. -/
theorem writeOneByOne_eq (h : pos.toNat + n.toNat ≤ 256) (hlen : buffer.length = 4096 * n.toNat) :
    writeOneByOne m pos buffer n = m.write (place pos) buffer := by
  have hsectors : (List.range n.toNat).flatMap (sector buffer) = buffer :=
    flatMap_blocks hlen
  conv_rhs => rw [← hsectors]
  rw [writeOneByOne]
  apply Mem.foldl_write
  · intro k hk
    exact length_sector hlen hk
  · intro m k hk
    have hadd : (pos + UInt32.ofNat k).toNat = pos.toNat + k := toNat_add_ofNat (by omega)
    have hplace : place (pos + UInt32.ofNat k) = place pos + 4096 * k := by
      unfold place
      omega
    have hone : (1 : UInt32).toNat = 1 := rfl
    have hfull := length_sector hlen hk
    rw [flashDiskWrite_eq (by omega) (fun _ => Nat.le_of_eq hfull.symm), hplace, hone]
    simp [List.range_one, List.take_of_length_le (Nat.le_of_eq hfull)]

theorem flashDiskRead_eq (h : pos.toNat + n.toNat ≤ 256) :
    (flashDiskRead m pos n).1 = m.read (place pos) (4096 * n.toNat) := by
  have hmul : (sectorSize * n).toNat = 4096 * n.toNat :=
    toNat_mul_of_lt (by change 4096 * n.toNat < 2 ^ 32; omega)
  rw [flashDiskRead, bekenFlashRead]
  split
  next hzero =>
    have hnone : 4096 * n.toNat = 0 := by
      rw [← hmul, hzero]
      rfl
    rw [hnone, Mem.read_zero]
  next => rw [hmul, address_place (by omega)]

end Rounds

section Law

variable {m : Mem UInt8} {pos n : UInt32} {buffer : List UInt8}

theorem sectorCount_eq : diskGeometry.sectorCount.toNat = 256 := by decide

/-- Every sector is written with the first one of the buffer. -/
theorem flashDiskWrite_first (hfit : pos.toNat + n.toNat ≤ diskGeometry.sectorCount.toNat)
    (hlen : buffer.length = 4096 * n.toNat) : (flashDiskWrite m pos buffer n).1 =
      m.write (place pos) ((List.range n.toNat).flatMap fun _ => buffer.take 4096) := by
  rw [sectorCount_eq] at hfit
  refine flashDiskWrite_eq hfit fun hne => ?_
  have hpos := toNat_pos hne
  omega

theorem length_first (hlen : buffer.length = 4096 * n.toNat) :
    ∀ k < n.toNat, (buffer.take 4096).length = 4096 := by
  intro k hk
  rw [List.length_take]
  omega

theorem WriteLaw.repeats (hfit : pos.toNat + n.toNat ≤ diskGeometry.sectorCount.toNat)
    (hlen : buffer.length = 4096 * n.toNat) (h : WriteLaw m pos buffer n) :
    ∀ i < n.toNat, sector buffer i = sector buffer 0 := by
  have hread := h.readBack
  rw [flashDiskWrite_first hfit hlen, flashDiskRead_eq (sectorCount_eq ▸ hfit),
    ← length_flatMap_range (length_first hlen), Mem.read_write_self] at hread
  intro i hi
  exact ((flatMap_eq_iff hlen (length_first hlen)).mp hread i hi).symm

theorem writeLaw_of_repeats (hfit : pos.toNat + n.toNat ≤ diskGeometry.sectorCount.toNat)
    (hlen : buffer.length = 4096 * n.toNat)
    (h : ∀ i < n.toNat, sector buffer i = sector buffer 0) : WriteLaw m pos buffer n := by
  have hwrite := flashDiskWrite_first (m := m) hfit hlen
  have hall : ((List.range n.toNat).flatMap fun _ => buffer.take 4096) = buffer :=
    (flatMap_eq_iff hlen (length_first hlen)).mpr fun i hi => (h i hi).symm
  rw [sectorCount_eq] at hfit
  rw [hall] at hwrite
  refine ⟨?_, fun k hk => ?_, ?_⟩
  · rw [hwrite, flashDiskRead_eq hfit, ← hlen, Mem.read_write_self]
  · rw [hwrite]
    rcases hk with hk | hk
    · exact Mem.write_apply_of_lt _ _ hk
    · exact Mem.write_apply_of_ge _ (by omega)
  · rw [hwrite, writeOneByOne_eq hfit hlen]

/-- A write is right where the sectors of its buffer are all the same: what goes to every place is
the first one. -/
theorem flash_disk_law_iff_repeats (m : Mem UInt8) (pos n : UInt32) (buffer : List UInt8)
    (hfit : pos.toNat + n.toNat ≤ diskGeometry.sectorCount.toNat)
    (hlen : buffer.length = 4096 * n.toNat) :
    WriteLaw m pos buffer n ↔ ∀ i < n.toNat, sector buffer i = sector buffer 0 :=
  ⟨fun h => h.repeats hfit hlen, writeLaw_of_repeats hfit hlen⟩

theorem flash_disk_law_iff_repeats_one :
    WriteLaw (fun _ => 0xff) 255 (List.replicate 4096 7) 1 := by
  refine (flash_disk_law_iff_repeats _ 255 1 _ (by decide) List.length_replicate).mpr
    fun i hi => ?_
  rw [Nat.lt_one_iff.mp hi]

/-- Two sectors that are not the same. -/
def twoSectors : List UInt8 := List.replicate 4096 1 ++ List.replicate 4096 2

theorem not_writeLaw_twoSectors : ¬ WriteLaw (fun _ => 0xff) 0 twoSectors 2 := by
  intro h
  have hlen : twoSectors.length = 4096 * (2 : UInt32).toNat := by
    rw [twoSectors, List.length_append, List.length_replicate, List.length_replicate]
    rfl
  have hsame := h.repeats (by decide) hlen 1 (by decide)
  have hfirst : sector twoSectors 0 = List.replicate 4096 1 :=
    List.take_left' List.length_replicate
  have hsecond : sector twoSectors 1 = List.replicate 4096 2 := by
    rw [sector, twoSectors, List.drop_left' List.length_replicate]
    exact List.take_of_length_le (Nat.le_of_eq List.length_replicate)
  rw [hfirst, hsecond] at hsame
  have hhead := congrArg List.head? hsame
  simp at hhead

end Law

end BdkRtt.Flash.Disk
