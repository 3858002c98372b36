import BdkRtt.Flash.DriverLaws

/-! Where `flash_write_data` writes, line by line. -/

namespace BdkRtt.Flash

open Lib

section Lines

/-- `writeLines`, with the lines that it programs. -/
def programmedLines (f : Chip) :
    Nat → (pb buffer : List UInt8) → (addr address len : UInt32) → Chip × List UInt32
  | 0, _, _, _, _, _ => (f, [])
  | fuel + 1, pb, buffer, addr, address, len =>
    if len = 0 then (f, [])
    else
      let line := if len < 32 then flashReadData f addr 32 else (f, pb)
      let f := line.1
      let pos := (address % 32).toNat
      let n := lineCount address len
      let pb := line.2.take pos ++ buffer.take n ++ line.2.drop (pos + n)
      let f := f.operate (operateWord addr flashOpcodePp f.operateSw) pb
      let rest := programmedLines f fuel (List.replicate 32 0xff) (buffer.drop n) (addr + 32)
        (address + UInt32.ofNat n) (len - UInt32.ofNat n)
      (rest.1, addr :: rest.2)

/-- `flash_write_data`, with the lines that it programs. -/
def flashWriteDataLines (f : Chip) (buffer : List UInt8) (address len : UInt32) :
    Chip × List UInt32 :=
  let addr := lineAddr address
  if addr ≥ f.flashSize ∨ len > f.flashSize ∨ addr + len > f.flashSize then (f, [])
  else
    let line := if address % 32 ≠ 0 then flashReadData f addr 32 else (f, List.replicate 32 0xff)
    programmedLines line.1 len.toNat line.2 buffer addr address len

variable {f : Chip} {buffer : List UInt8} {address len : UInt32}

theorem programmedLines_fst (f : Chip) (fuel : Nat) (pb buffer : List UInt8)
    (addr address len : UInt32) : (programmedLines f fuel pb buffer addr address len).1 =
      writeLines f fuel pb buffer addr address len := by
  induction fuel generalizing f pb buffer addr address len with
  | zero => rfl
  | succ fuel ih =>
    unfold programmedLines writeLines
    split
    next => rfl
    next => exact ih ..

/-- The lines are those that the model of the driver programs. -/
theorem flashWriteDataLines_fst (f : Chip) (buffer : List UInt8) (address len : UInt32) :
    (flashWriteDataLines f buffer address len).1 = flashWriteData f buffer address len := by
  unfold flashWriteDataLines flashWriteData
  dsimp only
  split
  next => rfl
  next => exact programmedLines_fst ..

/-- A line is programmed for a byte of the request. -/
theorem programmedLines_lt {fuel : Nat} {pb : List UInt8} {addr : UInt32}
    (hline : len ≠ 0 → addr = lineAddr address) (hfit : address.toNat + len.toNat ≤ 2 ^ 24) :
    ∀ a ∈ (programmedLines f fuel pb buffer addr address len).2,
      a.toNat < address.toNat + len.toNat := by
  induction fuel generalizing f pb buffer addr address len with
  | zero => exact nofun
  | succ fuel ih =>
    unfold programmedLines
    split
    next => exact nofun
    next h0 =>
      have hr := round h0 hfit
      have hle := hr.le
      have hlen : len.toNat ≠ 0 := fun h => h0 (UInt32.toNat_inj.mp h)
      obtain rfl := hline h0
      intro a ha
      rcases List.mem_cons.mp ha with rfl | ha
      · rw [lineAddr_toNat]
        omega
      · have hlt := ih hr.next (by rw [hr.address_next, hr.len_next]; omega) a ha
        rw [hr.address_next, hr.len_next] at hlt
        omega

theorem programmedLines_ne_nil {fuel : Nat} {pb : List UInt8} {addr : UInt32} (h0 : len ≠ 0) :
    (programmedLines f (fuel + 1) pb buffer addr address len).2 ≠ [] := by
  unfold programmedLines
  rw [if_neg h0]
  exact List.cons_ne_nil _ _

end Lines

section Law

variable {f : Chip} {buffer : List UInt8} {address len : UInt32}

/-- What a request does to the cells, and which lines it reaches. -/
structure WriteDataLaw (f : Chip) (buffer : List UInt8) (address len : UInt32) : Prop where
  effect : ¬ Refused f.flashSize address len → ∀ i < len.toNat,
    (flashWriteData f buffer address len).cells (address.toNat + i) =
      f.cells (address.toNat + i) &&& buffer.getD i 0xff
  frame : ∀ k, ¬ (address.toNat ≤ k ∧ k < address.toNat + len.toNat) →
    (flashWriteData f buffer address len).cells k = f.cells k
  onChip : ∀ a ∈ (flashWriteDataLines f buffer address len).2, a.toNat < f.flashSize.toNat
  rejects : f.flashSize.toNat < address.toNat + len.toNat →
    (flashWriteDataLines f buffer address len).2 = [] ∧ flashWriteData f buffer address len = f

theorem flashWriteDataLines_refused (buffer : List UInt8)
    (h : Refused f.flashSize address len) :
    flashWriteDataLines f buffer address len = (f, []) :=
  if_pos h

theorem flashWriteDataLines_accepted (buffer : List UInt8)
    (h : ¬ Refused f.flashSize address len) :
    ∃ g pb, flashWriteDataLines f buffer address len =
      programmedLines g len.toNat pb buffer (lineAddr address) address len :=
  ⟨_, _, if_neg h⟩

/-- A request that is not refused begins on the chip and ends at most one line behind it. -/
theorem end_of_not_refused (hchip : f.flashSize ∈ flashConfigSizes)
    (h : ¬ Refused f.flashSize address len) :
    address.toNat < f.flashSize.toNat ∧ address.toNat + len.toNat ≤ f.flashSize.toNat + 31 := by
  obtain ⟨hmod, hsize⟩ := flashConfigSizes_line hchip
  have hline := lineAddr_toNat address
  simp only [Refused, ge_iff_le, gt_iff_lt, UInt32.le_iff_toNat_le, UInt32.lt_iff_toNat_lt,
    not_or, Nat.not_le, Nat.not_lt] at h
  obtain ⟨haddr, hlen, hsum⟩ := h
  have hadd : (lineAddr address + len).toNat = (lineAddr address).toNat + len.toNat :=
    toNat_add_of_lt (by omega)
  rw [hadd] at hsum
  omega

theorem effect_of_programs {f' : Chip} (h : Programs f address.toNat buffer f')
    (hbuf : buffer.length = len.toNat) :
    (∀ i < len.toNat, f'.cells (address.toNat + i) =
      f.cells (address.toNat + i) &&& buffer.getD i 0xff) ∧
    ∀ k, ¬ (address.toNat ≤ k ∧ k < address.toNat + len.toNat) → f'.cells k = f.cells k := by
  rw [h.cells]
  refine ⟨fun i _ => program_apply_add _ _ i buffer, fun k hk => ?_⟩
  by_cases hlt : k < address.toNat
  · exact program_apply_of_lt _ _ _ hlt
  · exact program_apply_of_ge _ _ (by omega)

/-- A request that ends on the chip reaches lines of the chip only. -/
theorem onChip_of_inside (hchip : f.flashSize ∈ flashConfigSizes)
    (hfit : address.toNat + len.toNat ≤ f.flashSize.toNat) :
    ∀ a ∈ (flashWriteDataLines f buffer address len).2, a.toNat < f.flashSize.toNat := by
  have hsize := (flashConfigSizes_line hchip).2
  intro a ha
  unfold flashWriteDataLines at ha
  dsimp only at ha
  split at ha
  next => cases ha
  next =>
    refine Nat.lt_of_lt_of_le (programmedLines_lt (fun _ => rfl) ?_ a ha) hfit
    exact Nat.le_trans hfit (Nat.le_trans hsize (by decide))

theorem inside_of_writeDataLaw (hchip : f.flashSize ∈ flashConfigSizes)
    (h : WriteDataLaw f buffer address len) :
    address.toNat + len.toNat ≤ f.flashSize.toNat ∨ Refused f.flashSize address len := by
  by_contra hbad
  obtain ⟨hover, hok⟩ := not_or.mp hbad
  obtain ⟨hlt, -⟩ := end_of_not_refused hchip hok
  have hnil := (h.rejects (Nat.lt_of_not_le hover)).1
  have h0 : len ≠ 0 := by
    rintro rfl
    exact hover (Nat.le_of_lt hlt)
  have hpos : len.toNat ≠ 0 := fun h => h0 (UInt32.toNat_inj.mp h)
  obtain ⟨fuel, hfuel⟩ := Nat.exists_eq_succ_of_ne_zero hpos
  obtain ⟨g, pb, heq⟩ := flashWriteDataLines_accepted buffer hok
  rw [heq, hfuel] at hnil
  exact programmedLines_ne_nil h0 hnil

theorem writeDataLaw_of_inside (hchip : f.flashSize ∈ flashConfigSizes)
    (hbuf : buffer.length = len.toNat)
    (h : address.toNat + len.toNat ≤ f.flashSize.toNat ∨ Refused f.flashSize address len) :
    WriteDataLaw f buffer address len := by
  have hsize := (flashConfigSizes_line hchip).2
  by_cases hbad : Refused f.flashSize address len
  · have hsame : flashWriteData f buffer address len = f := flashWriteData_refused hbad
    have hnone := flashWriteDataLines_refused buffer hbad
    refine ⟨fun hok => absurd hbad hok, fun k _ => by rw [hsame], fun a ha => ?_, fun _ => ?_⟩
    · rw [hnone] at ha
      cases ha
    · exact ⟨by rw [hnone], hsame⟩
  · have hfit := h.resolve_right hbad
    obtain ⟨hlt, -⟩ := end_of_not_refused hchip hbad
    have hprog := flashWriteData_accepted f hbuf (by omega) (by omega) hbad
    obtain ⟨heffect, hframe⟩ := effect_of_programs hprog hbuf
    exact ⟨fun _ => heffect, hframe, onChip_of_inside hchip hfit,
      fun hover => absurd hfit (Nat.not_le.mpr hover)⟩

/-- `flash_write_data` reaches the requested bytes only, and lines of the chip only, and refuses
every request that ends behind the chip, exactly when this one does not or is refused. -/
theorem flash_write_data_frame (f : Chip) (hchip : f.flashSize ∈ flashConfigSizes)
    {buffer : List UInt8} {address len : UInt32} (hbuf : buffer.length = len.toNat) :
    WriteDataLaw f buffer address len ↔
      address.toNat + len.toNat ≤ f.flashSize.toNat ∨ Refused f.flashSize address len :=
  ⟨inside_of_writeDataLaw hchip, writeDataLaw_of_inside hchip hbuf⟩

/-- A chip of four megabytes with nothing but zeros. -/
def zeroChip : Chip where
  flashSize := 0x400000
  cells _ := 0
  operateSw := 0
  dataFlashSw := []

theorem flash_write_data_frame_three : WriteDataLaw zeroChip [1, 2, 3] 30 3 :=
  (flash_write_data_frame zeroChip (by decide) rfl).mpr (.inl (by decide))

/-- 32 bytes from the last byte of the chip on. -/
theorem flash_write_data_behind : ¬ ∀ (f : Chip), f.flashSize ∈ flashConfigSizes →
    ∀ (buffer : List UInt8) (address len : UInt32), buffer.length = len.toNat →
      WriteDataLaw f buffer address len := by
  intro hall
  have hlaw := hall zeroChip (by decide) (List.replicate 32 0) 0x3fffff 32 rfl
  rcases inside_of_writeDataLaw (by decide) hlaw with hfit | hbad
  · exact absurd hfit (by decide)
  · unfold Refused at hbad
    exact absurd hbad (by decide)

end Law

end BdkRtt.Flash
