import BdkRtt.Flash.Partition
import BdkRtt.Flash.DriverLaws
import BdkRtt.Lib.Words

namespace BdkRtt.Flash

open Lib

section Loop

theorem shift_toNat {i : UInt32} (h : i.toNat < 2 ^ 20) : (i <<< 12).toNat = i.toNat * 4096 := by
  simp [UInt32.toNat_shiftLeft, Nat.shiftLeft_eq]
  omega

theorem sector_toNat (x : UInt32) : (x >>> 12).toNat = x.toNat / 4096 := by
  simp [UInt32.toNat_shiftRight, Nat.shiftRight_eq_div_pow]

variable {startAddr i endSector : UInt32} {fuel : Nat}

theorem succ_toNat (hle : i ≤ endSector) (hend : endSector.toNat < 2 ^ 20) :
    (i + 1).toNat = i.toNat + 1 := by
  have hle' : i.toNat ≤ endSector.toNat := hle
  exact toNat_add_of_lt (by simp; omega)

/-- The loop visits every sector up to the last. -/
theorem eraseSectors_rounds (f : Chip) (hend : endSector.toNat < 2 ^ 20)
    (hfuel : endSector.toNat + 1 - i.toNat ≤ fuel) :
    (eraseSectors startAddr fuel f i endSector).2 = endSector.toNat + 1 - i.toNat := by
  induction fuel generalizing f i with
  | zero =>
    rw [Nat.le_zero.mp hfuel]
    rfl
  | succ fuel ih =>
    unfold eraseSectors
    split
    next hle =>
      have hle' : i.toNat ≤ endSector.toNat := hle
      have hsucc := succ_toNat hle hend
      dsimp only
      rw [ih _ (by omega), hsucc]
      omega
    next hgt =>
      have hgt' : ¬ i.toNat ≤ endSector.toNat := hgt
      dsimp only
      omega

/-- The sectors the loop erases are those from `i` to the last that are on the chip. -/
theorem eraseSectors_cells (f : Chip) (hstart : startAddr.toNat % 4096 = 0)
    (hfit : startAddr.toNat < 2 ^ 23) (hend : endSector.toNat < 2 ^ 11)
    (hfuel : endSector.toNat + 1 - i.toNat ≤ fuel) (k : Nat) :
    (eraseSectors startAddr fuel f i endSector).1.cells k =
      if k / 4096 * 4096 < f.flashSize.toNat ∧ startAddr.toNat / 4096 + i.toNat ≤ k / 4096 ∧
        k / 4096 ≤ startAddr.toNat / 4096 + endSector.toNat then 0xff
      else f.cells k := by
  induction fuel generalizing f i with
  | zero =>
    rw [if_neg (by omega)]
    rfl
  | succ fuel ih =>
    unfold eraseSectors
    split
    next hle =>
      have hle' : i.toNat ≤ endSector.toNat := hle
      have hsucc := succ_toNat hle (by omega)
      have hshift := shift_toNat (i := i) (by omega)
      have haddr : (startAddr + (i <<< 12)).toNat = startAddr.toNat + i.toNat * 4096 := by
        rw [UInt32.toNat_add, hshift]
        exact Nat.mod_eq_of_lt (by omega)
      have hsector : (startAddr + (i <<< 12)).toNat / 4096 = startAddr.toNat / 4096 + i.toNat := by
        omega
      dsimp only
      rw [ih _ (by omega), flashEraseSector_flashSize,
        flashEraseSector_cells f (by omega), hsucc, hsector]
      by_cases hk : k / 4096 = startAddr.toNat / 4096 + i.toNat
      · rw [if_neg fun h => absurd h.2.1 (by omega), hk]
        refine if_congr ⟨fun h => ⟨h.1, ?_, ?_⟩, fun h => ⟨h.1, rfl⟩⟩ rfl rfl <;> omega
      · rw [if_neg (fun h => hk h.2 : ¬ (_ ∧ _ = _))]
        refine if_congr ⟨fun h => ⟨h.1, ?_, h.2.2⟩, fun h => ⟨h.1, ?_, h.2.2⟩⟩ rfl rfl <;> omega
    next hgt =>
      have hgt' : ¬ i.toNat ≤ endSector.toNat := hgt
      rw [if_neg (by omega)]

theorem eraseSectors_flashSize (f : Chip) :
    (eraseSectors startAddr fuel f i endSector).1.flashSize = f.flashSize := by
  induction fuel generalizing f i with
  | zero => rfl
  | succ fuel ih =>
    unfold eraseSectors
    split
    next => exact (ih _).trans (flashEraseSector_flashSize f)
    next => rfl

end Loop

section Requests

variable (soc7221u : Bool) (flashSize : UInt32) (p : BkPartition) (offSet size : UInt32)

def BkPartition.start : Nat := (bkFlashGetInfo soc7221u p).partitionStartAddr.toNat

def BkPartition.length : Nat := (bkFlashGetInfo soc7221u p).partitionLength.toNat

def BkPartition.Claims (k : Nat) : Prop :=
  p.start soc7221u ≤ k ∧ k < p.start soc7221u + p.length soc7221u

instance (k : Nat) : Decidable (p.Claims soc7221u k) := inferInstanceAs (Decidable (_ ∧ _))

/-- The bytes of the flash the request is about. -/
def Requested (k : Nat) : Prop :=
  p.start soc7221u + offSet.toNat ≤ k ∧ k < p.start soc7221u + offSet.toNat + size.toNat

/-- The bytes of the sectors that have a requested byte. -/
def SectorRequested (k : Nat) : Prop :=
  ∃ x, Requested soc7221u p offSet size x ∧ x / 4096 = k / 4096

/-- The request lies inside the partition. -/
def Inside : Prop := offSet.toNat + size.toNat ≤ p.length soc7221u

instance : Decidable (Inside soc7221u p offSet size) := inferInstanceAs (Decidable (_ ≤ _))

/-- What a partition's `bk_flash_erase` is to do and to leave alone, on any chip of the size. -/
structure EraseLaw : Prop where
  erases : Inside soc7221u p offSet size → ∀ f : Chip, f.flashSize = flashSize → ∀ k,
    (SectorRequested soc7221u p offSet size k →
      (bkFlashErase soc7221u f p offSet size).1.cells k = 0xff) ∧
    (¬ SectorRequested soc7221u p offSet size k →
      (bkFlashErase soc7221u f p offSet size).1.cells k = f.cells k)
  refuses : ¬ Inside soc7221u p offSet size → ∀ f : Chip, f.flashSize = flashSize →
    (bkFlashErase soc7221u f p offSet size).1.cells = f.cells ∧
      (bkFlashErase soc7221u f p offSet size).2.1 ≠ .noErr
  isolated : ∀ f : Chip, f.flashSize = flashSize → ∀ q, q ≠ p → ∀ k, q.Claims soc7221u k →
    (bkFlashErase soc7221u f p offSet size).1.cells k = f.cells k
  ends : ∀ f : Chip, f.flashSize = flashSize →
    (bkFlashErase soc7221u f p offSet size).2.2 ≤ p.length soc7221u / 4096

/-- The same for `bk_flash_write`, for every buffer and the NULL pointer. -/
structure WriteLaw : Prop where
  frame : Inside soc7221u p offSet size → ∀ (f : Chip) (inBuffer : Option (List UInt8)),
    f.flashSize = flashSize → (∀ b ∈ inBuffer, b.length = size.toNat) →
    ∀ k, ¬ Requested soc7221u p offSet size k →
      (bkFlashWrite soc7221u f p offSet inBuffer size).1.cells k = f.cells k
  refuses : ¬ Inside soc7221u p offSet size → ∀ (f : Chip) (inBuffer : Option (List UInt8)),
    f.flashSize = flashSize → (∀ b ∈ inBuffer, b.length = size.toNat) →
    (bkFlashWrite soc7221u f p offSet inBuffer size).1.cells = f.cells ∧
      (bkFlashWrite soc7221u f p offSet inBuffer size).2 ≠ .noErr
  isolated : ∀ (f : Chip) (inBuffer : Option (List UInt8)), f.flashSize = flashSize →
    (∀ b ∈ inBuffer, b.length = size.toNat) → ∀ q, q ≠ p → ∀ k, q.Claims soc7221u k →
    (bkFlashWrite soc7221u f p offSet inBuffer size).1.cells k = f.cells k

/-- An erase request that keeps the law: inside its partition, on the chip, on no sector that
another partition claims as well, and not empty unless the empty loop is meant. -/
structure EraseFits : Prop where
  inside : Inside soc7221u p offSet size
  onChip : ∀ k, SectorRequested soc7221u p offSet size k → k / 4096 * 4096 < flashSize.toNat
  alone : ∀ k, SectorRequested soc7221u p offSet size k → ∀ q, q ≠ p → ¬ q.Claims soc7221u k
  empty : size = 0 → offSet ≠ 0 ∧ (offSet.toNat % 4096 = 0 ∨
    flashSize.toNat ≤ (p.start soc7221u + offSet.toNat) / 4096 * 4096)

/-- A write request that keeps the law: inside its partition, and on no byte that another
partition claims as well unless the driver refuses it. -/
structure WriteFits : Prop where
  inside : Inside soc7221u p offSet size
  alone : Refused flashSize ((bkFlashGetInfo soc7221u p).partitionStartAddr + offSet) size ∨
    ∀ k, Requested soc7221u p offSet size k → ∀ q, q ≠ p → ¬ q.Claims soc7221u k

end Requests

section Erase

variable {soc7221u : Bool} {flashSize : UInt32} {p : BkPartition} {offSet size : UInt32}

/-- What the table has in common: whole sectors, in the first two megabytes. -/
theorem table_bounds (soc7221u : Bool) (p : BkPartition) :
    p.start soc7221u % 4096 = 0 ∧ p.length soc7221u % 4096 = 0 ∧
      p.start soc7221u + p.length soc7221u ≤ 2 ^ 21 := by
  cases p <;> cases soc7221u <;> decide

/-- The sectors the loop runs over are those requested. -/
theorem sectorRequested_iff (h0 : size ≠ 0) (k : Nat) :
    SectorRequested soc7221u p offSet size k ↔
      p.start soc7221u / 4096 + offSet.toNat / 4096 ≤ k / 4096 ∧
        k / 4096 ≤ p.start soc7221u / 4096 + (offSet.toNat + size.toNat - 1) / 4096 := by
  obtain ⟨hstart, _, _⟩ := table_bounds soc7221u p
  have hsize : size.toNat ≠ 0 := fun h => h0 (UInt32.toNat_inj.mp h)
  constructor
  · rintro ⟨x, ⟨hlo, hhi⟩, hx⟩
    omega
  · rintro ⟨hlo, hhi⟩
    by_cases hk : k / 4096 * 4096 < p.start soc7221u + offSet.toNat
    · exact ⟨p.start soc7221u + offSet.toNat, ⟨by omega, by omega⟩, by omega⟩
    · exact ⟨k / 4096 * 4096, ⟨by omega, by omega⟩, by omega⟩

theorem not_sectorRequested_zero (k : Nat) : ¬ SectorRequested soc7221u p offSet 0 k := by
  rintro ⟨x, ⟨hlo, hhi⟩, _⟩
  simp only [UInt32.toNat_zero] at hhi
  omega

/-- The loop of `bk_flash_erase` runs from the sector of the offset to the last one. -/
theorem bkFlashErase_rounds (f : Chip) :
    (bkFlashErase soc7221u f p offSet size).2.2 =
      (offSet + size - 1).toNat / 4096 + 1 - offSet.toNat / 4096 := by
  have hlast := sector_toNat (offSet + size - 1)
  have hlt := (offSet + size - 1).toNat_lt
  change (eraseSectors _ (2 ^ 20) f (offSet >>> 12) ((offSet + size - 1) >>> 12)).2 = _
  rw [eraseSectors_rounds f (by omega) (by omega), sector_toNat, sector_toNat]

theorem bkFlashErase_cells (f : Chip) (hlast : (offSet + size - 1).toNat < 2 ^ 23) (k : Nat) :
    (bkFlashErase soc7221u f p offSet size).1.cells k =
      if k / 4096 * 4096 < f.flashSize.toNat ∧
        p.start soc7221u / 4096 + offSet.toNat / 4096 ≤ k / 4096 ∧
        k / 4096 ≤ p.start soc7221u / 4096 + (offSet + size - 1).toNat / 4096 then 0xff
      else f.cells k := by
  obtain ⟨hstart, _, hend⟩ := table_bounds soc7221u p
  have hsector := sector_toNat (offSet + size - 1)
  change (eraseSectors _ (2 ^ 20) f (offSet >>> 12) ((offSet + size - 1) >>> 12)).1.cells k = _
  rw [eraseSectors_cells f hstart (show p.start soc7221u < _ by omega) (by omega) (by omega) k,
    sector_toNat, sector_toNat]
  rfl

section Full

variable (h0 : size ≠ 0) (hin : Inside soc7221u p offSet size)
include h0 hin

theorem last_toNat : (offSet + size - 1).toNat = offSet.toNat + size.toNat - 1 := by
  obtain ⟨_, _, hend⟩ := table_bounds soc7221u p
  have hin' : offSet.toNat + size.toNat ≤ p.length soc7221u := hin
  have hsize : size.toNat ≠ 0 := fun h => h0 (UInt32.toNat_inj.mp h)
  have hsum : (offSet + size).toNat = offSet.toNat + size.toNat :=
    toNat_add_of_lt (by omega)
  have hone : (1 : UInt32) ≤ offSet + size := by
    rw [UInt32.le_iff_toNat_le, hsum]
    simp only [UInt32.reduceToNat]
    omega
  rw [UInt32.toNat_sub_of_le _ _ hone, hsum]
  rfl

/-- Inside its partition a request that is not empty erases the sectors requested that are
on the chip. -/
theorem bkFlashErase_requested (f : Chip) (k : Nat) :
    ((k / 4096 * 4096 < f.flashSize.toNat ∧ SectorRequested soc7221u p offSet size k) →
      (bkFlashErase soc7221u f p offSet size).1.cells k = 0xff) ∧
    (¬ (k / 4096 * 4096 < f.flashSize.toNat ∧ SectorRequested soc7221u p offSet size k) →
      (bkFlashErase soc7221u f p offSet size).1.cells k = f.cells k) := by
  obtain ⟨_, _, hend⟩ := table_bounds soc7221u p
  have hin' : offSet.toNat + size.toNat ≤ p.length soc7221u := hin
  have hlast := last_toNat h0 hin
  rw [bkFlashErase_cells f (by omega), hlast, sectorRequested_iff h0]
  exact ⟨fun h => if_pos h, fun h => if_neg h⟩

theorem bkFlashErase_ends (f : Chip) :
    (bkFlashErase soc7221u f p offSet size).2.2 ≤ p.length soc7221u / 4096 := by
  obtain ⟨_, _, hend⟩ := table_bounds soc7221u p
  have hin' : offSet.toNat + size.toNat ≤ p.length soc7221u := hin
  have hsize : size.toNat ≠ 0 := fun h => h0 (UInt32.toNat_inj.mp h)
  rw [bkFlashErase_rounds, last_toNat h0 hin]
  omega

end Full

/-- The last byte of an empty request is the one before it. -/
theorem last_empty (h : offSet ≠ 0) : (offSet + 0 - 1).toNat = offSet.toNat - 1 := by
  have hoff : offSet.toNat ≠ 0 := fun h' => h (UInt32.toNat_inj.mp h')
  rw [UInt32.add_zero, UInt32.toNat_sub_of_le _ _ (by
    rw [UInt32.le_iff_toNat_le]
    simp only [UInt32.reduceToNat]
    omega)]
  rfl

/-- The request of no bytes still erases the sector it stands inside. -/
theorem bkFlashErase_empty (f : Chip) (h : offSet ≠ 0) (hin : Inside soc7221u p offSet 0)
    (k : Nat) :
    (bkFlashErase soc7221u f p offSet 0).1.cells k =
      if k / 4096 * 4096 < f.flashSize.toNat ∧ offSet.toNat % 4096 ≠ 0 ∧
        k / 4096 = (p.start soc7221u + offSet.toNat) / 4096 then 0xff
      else f.cells k := by
  obtain ⟨hstart, _, hend⟩ := table_bounds soc7221u p
  have hin' : offSet.toNat + 0 ≤ p.length soc7221u := hin
  have hoff : offSet.toNat ≠ 0 := fun h' => h (UInt32.toNat_inj.mp h')
  have hlast := last_empty h
  rw [bkFlashErase_cells f (by omega), hlast]
  refine if_congr ⟨fun hk => ⟨hk.1, ?_, ?_⟩, fun hk => ⟨hk.1, ?_, ?_⟩⟩ rfl rfl <;> omega

/-- A request that fits erases the sectors requested and nothing else. -/
theorem EraseFits.erases (h : EraseFits soc7221u flashSize p offSet size) (f : Chip)
    (hf : f.flashSize = flashSize) (k : Nat) :
    (SectorRequested soc7221u p offSet size k →
      (bkFlashErase soc7221u f p offSet size).1.cells k = 0xff) ∧
    (¬ SectorRequested soc7221u p offSet size k →
      (bkFlashErase soc7221u f p offSet size).1.cells k = f.cells k) := by
  subst hf
  by_cases h0 : size = 0
  · subst h0
    obtain ⟨hoff, hfree⟩ := h.empty rfl
    refine ⟨fun hreq => absurd hreq (not_sectorRequested_zero k), fun _ => ?_⟩
    rw [bkFlashErase_empty f hoff h.inside, if_neg]
    rintro ⟨hon, hinside, hk⟩
    rw [hk] at hon
    exact hfree.elim hinside (Nat.not_le.mpr hon)
  · have hcells := bkFlashErase_requested h0 h.inside f k
    exact ⟨fun hreq => hcells.1 ⟨h.onChip k hreq, hreq⟩, fun hreq => hcells.2 fun h' => hreq h'.2⟩

theorem EraseFits.ends (h : EraseFits soc7221u flashSize p offSet size) (f : Chip) :
    (bkFlashErase soc7221u f p offSet size).2.2 ≤ p.length soc7221u / 4096 := by
  by_cases h0 : size = 0
  · subst h0
    obtain ⟨hoff, _⟩ := h.empty rfl
    obtain ⟨_, hlen, _⟩ := table_bounds soc7221u p
    have hin : offSet.toNat + 0 ≤ p.length soc7221u := h.inside
    have hoff' : offSet.toNat ≠ 0 := fun h' => hoff (UInt32.toNat_inj.mp h')
    rw [bkFlashErase_rounds, last_empty hoff]
    omega
  · exact bkFlashErase_ends h0 h.inside f

theorem EraseFits.law (h : EraseFits soc7221u flashSize p offSet size) :
    EraseLaw soc7221u flashSize p offSet size where
  erases _ f hf := h.erases f hf
  refuses hout := absurd h.inside hout
  isolated f hf q hq k hk := (h.erases f hf k).2 fun hreq => h.alone k hreq q hq hk
  ends f _ := h.ends f

/-- The chip with every byte `b`. -/
def filled (flashSize : UInt32) (b : UInt8) : Chip := ⟨flashSize, fun _ => b, 0, []⟩

theorem EraseLaw.fits (h : EraseLaw soc7221u flashSize p offSet size) :
    EraseFits soc7221u flashSize p offSet size := by
  have hin : Inside soc7221u p offSet size :=
    Classical.byContradiction fun hout => (h.refuses hout (filled flashSize 0) rfl).2 rfl
  have herased (k : Nat) (hk : SectorRequested soc7221u p offSet size k) :
      (bkFlashErase soc7221u (filled flashSize 0) p offSet size).1.cells k = 0xff :=
    (h.erases hin _ rfl k).1 hk
  have hfilled (k : Nat) : (filled flashSize 0).cells k = 0 := rfl
  refine ⟨hin, fun k hk => ?onChip, fun k hk q hq hclaim => ?alone, fun h0 => ⟨?some, ?whole⟩⟩
  case onChip =>
    have h0 : size ≠ 0 := fun h0 => not_sectorRequested_zero k (h0 ▸ hk)
    refine Classical.byContradiction fun hoff => ?_
    have hkept := (bkFlashErase_requested h0 hin (filled flashSize 0) k).2 fun h' => hoff h'.1
    rw [herased k hk, hfilled] at hkept
    exact absurd hkept (by decide)
  case alone =>
    have hkept := h.isolated (filled flashSize 0) rfl q hq k hclaim
    rw [herased k hk, hfilled] at hkept
    exact absurd hkept (by decide)
  case some =>
    -- a request of no bytes at the start of the partition runs the loop over all addresses
    rintro rfl
    subst h0
    have hends := h.ends (filled flashSize 0) rfl
    obtain ⟨_, _, hlen⟩ := table_bounds soc7221u p
    rw [bkFlashErase_rounds, show ((0 : UInt32) + 0 - 1).toNat = 2 ^ 32 - 1 from rfl,
      show (0 : UInt32).toNat = 0 from rfl] at hends
    omega
  case whole =>
    subst h0
    by_cases hoff : offSet = 0
    · exact .inl (by rw [hoff]; rfl)
    · refine Classical.byContradiction fun hnot => ?_
      obtain ⟨hmid, hon⟩ := not_or.mp hnot
      have hkept := (h.erases hin (filled flashSize 0) rfl
        (p.start soc7221u + offSet.toNat)).2 (not_sectorRequested_zero _)
      rw [bkFlashErase_empty _ hoff hin, if_pos ⟨Nat.not_le.mp hon, hmid, rfl⟩, hfilled] at hkept
      exact absurd hkept (by decide)

end Erase

section Write

variable {soc7221u : Bool} {flashSize : UInt32} {p : BkPartition} {offSet size : UInt32}

theorem writeAddr_toNat (hin : Inside soc7221u p offSet size) :
    ((bkFlashGetInfo soc7221u p).partitionStartAddr + offSet).toNat =
      p.start soc7221u + offSet.toNat := by
  obtain ⟨_, _, hend⟩ := table_bounds soc7221u p
  have hin' : offSet.toNat + size.toNat ≤ p.length soc7221u := hin
  have hlt : p.start soc7221u + offSet.toNat < 2 ^ 32 := by omega
  exact toNat_add_of_lt hlt

/-- What the driver does not refuse it programs at the place requested. -/
theorem bkFlashWrite_programs (f : Chip) {buffer : List UInt8}
    (hbuf : buffer.length = size.toNat) (hin : Inside soc7221u p offSet size)
    (hok : ¬ Refused f.flashSize ((bkFlashGetInfo soc7221u p).partitionStartAddr + offSet) size) :
    Programs f (p.start soc7221u + offSet.toNat) buffer
      (bkFlashWrite soc7221u f p offSet (some buffer) size).1 := by
  obtain ⟨_, _, hend⟩ := table_bounds soc7221u p
  have hin' : offSet.toNat + size.toNat ≤ p.length soc7221u := hin
  have haddr := writeAddr_toNat hin
  rw [← haddr]
  exact flashWriteData_accepted f hbuf (by omega) (by omega) hok

theorem bkFlashWrite_refused {f : Chip} {buffer : List UInt8}
    (h : Refused f.flashSize ((bkFlashGetInfo soc7221u p).partitionStartAddr + offSet) size) :
    (bkFlashWrite soc7221u f p offSet (some buffer) size).1 = f :=
  flashWriteData_refused h

/-- A write that is inside its partition changes bytes of its range only. -/
theorem bkFlashWrite_frame (hin : Inside soc7221u p offSet size) (f : Chip)
    (inBuffer : Option (List UInt8)) (hbuf : ∀ b ∈ inBuffer, b.length = size.toNat) {k : Nat}
    (hk : ¬ Requested soc7221u p offSet size k) :
    (bkFlashWrite soc7221u f p offSet inBuffer size).1.cells k = f.cells k := by
  cases inBuffer with
  | none => rfl
  | some buffer =>
    have hlen := hbuf buffer rfl
    by_cases hbad : Refused f.flashSize
        ((bkFlashGetInfo soc7221u p).partitionStartAddr + offSet) size
    · rw [bkFlashWrite_refused hbad]
    · rw [(bkFlashWrite_programs f hlen hin hbad).cells]
      by_cases hlow : k < p.start soc7221u + offSet.toNat
      · exact program_apply_of_lt _ _ _ hlow
      · refine program_apply_of_ge _ _ (Nat.le_of_not_lt fun hhigh => hk ⟨?_, ?_⟩) <;> omega

theorem WriteFits.law (h : WriteFits soc7221u flashSize p offSet size) :
    WriteLaw soc7221u flashSize p offSet size where
  frame hin f inBuffer _ hbuf k hk := bkFlashWrite_frame hin f inBuffer hbuf hk
  refuses hout := absurd h.inside hout
  isolated f inBuffer hf hbuf q hq k hclaim := by
    subst hf
    cases h.alone with
    | inl hbad =>
      cases inBuffer with
      | none => rfl
      | some buffer => rw [bkFlashWrite_refused hbad]
    | inr halone =>
      exact bkFlashWrite_frame h.inside f inBuffer hbuf fun hreq => halone k hreq q hq hclaim

theorem WriteLaw.fits (h : WriteLaw soc7221u flashSize p offSet size) :
    WriteFits soc7221u flashSize p offSet size := by
  have hzeros (b : List UInt8) (hb : b ∈ some (List.replicate size.toNat (0 : UInt8))) :
      b.length = size.toNat := by
    obtain rfl := Option.some.inj hb
    exact List.length_replicate
  have hin : Inside soc7221u p offSet size :=
    Classical.byContradiction fun hout => (h.refuses hout (filled flashSize 0) _ rfl hzeros).2 rfl
  refine ⟨hin, Classical.byContradiction fun hnot => ?_⟩
  obtain ⟨hok, hclaimed⟩ := not_or.mp hnot
  -- zeros written over ones show at every byte of the range
  refine hclaimed fun k ⟨hlo, hhi⟩ q hq hclaim => ?_
  have hkept := h.isolated (filled flashSize 0xff) _ rfl hzeros q hq k hclaim
  obtain ⟨d, rfl⟩ := Nat.exists_eq_add_of_le hlo
  have hd : d < (List.replicate size.toNat (0 : UInt8)).length := by
    rw [List.length_replicate]
    omega
  rw [(bkFlashWrite_programs (filled flashSize 0xff) List.length_replicate hin hok).cells,
    program_apply_add, List.getD_eq_getElem _ _ hd, List.getElem_replicate] at hkept
  exact absurd hkept (by simp [filled])

end Write

/-- The flash requests that keep to their partition, and only they, do what was asked of them and
leave the other partitions alone. -/
theorem partition_isolation (soc7221u : Bool) (flashSize : UInt32) (p : BkPartition)
    (offSet size : UInt32) :
    (EraseLaw soc7221u flashSize p offSet size ↔ EraseFits soc7221u flashSize p offSet size) ∧
      (WriteLaw soc7221u flashSize p offSet size ↔ WriteFits soc7221u flashSize p offSet size) :=
  ⟨⟨EraseLaw.fits, EraseFits.law⟩, ⟨WriteLaw.fits, WriteFits.law⟩⟩

/-- An erase right behind RF_FIRMWARE succeeds and clears NET_PARAM. -/
theorem erase_outside_partition :
    ∃ f : Chip, f.flashSize ∈ flashConfigSizes ∧
      ¬ Inside false .rfFirmware 0x1000 0x1000 ∧
      (bkFlashErase false f .rfFirmware 0x1000 0x1000).2.1 = .noErr ∧
      ∃ k, BkPartition.Claims false .netParam k ∧
        (bkFlashErase false f .rfFirmware 0x1000 0x1000).1.cells k ≠ f.cells k := by
  refine ⟨filled 0x200000 0, by decide, by decide, rfl, 0x1e1000, by decide, ?_⟩
  rw [bkFlashErase_cells _ (by decide)]
  decide

end BdkRtt.Flash
