import BdkRtt.Flash.Driver
import Mathlib.Tactic.IntervalCases
import BdkRtt.Lib.Words

namespace BdkRtt.Flash

open Lib

section Program

variable (m : Mem UInt8) (i : Nat)

theorem program_apply_of_lt {k : Nat} (xs : List UInt8) (h : k < i) : program m i xs k = m k :=
  if_pos h

theorem program_apply_add (k : Nat) (xs : List UInt8) :
    program m i xs (i + k) = m (i + k) &&& xs.getD k 0xff := by
  rw [program, if_neg (by omega), Nat.add_sub_cancel_left]

theorem and_ones (x : UInt8) : x &&& 0xff = x := UInt8.and_neg_one

theorem program_apply_of_ge {k : Nat} {xs : List UInt8} (h : i + xs.length ≤ k) :
    program m i xs k = m k := by
  obtain ⟨d, rfl⟩ := Nat.exists_eq_add_of_le (show i ≤ k by omega)
  rw [program_apply_add, List.getD_eq_default _ _ (by omega), and_ones]

@[simp] theorem program_nil : program m i [] = m := by
  funext k
  by_cases h : k < i
  · exact program_apply_of_lt m i [] h
  · exact program_apply_of_ge m i (Nat.le_of_not_lt h)

theorem program_append (xs ys : List UInt8) :
    program m i (xs ++ ys) = program (program m i xs) (i + xs.length) ys := by
  funext k
  by_cases h₁ : k < i
  · rw [program_apply_of_lt _ _ _ h₁, program_apply_of_lt _ _ _ (by omega),
      program_apply_of_lt _ _ _ h₁]
  obtain ⟨d, rfl⟩ := Nat.exists_eq_add_of_le (Nat.le_of_not_lt h₁)
  rw [program_apply_add]
  by_cases h₂ : d < xs.length
  · rw [program_apply_of_lt _ _ _ (by omega), program_apply_add, List.getD_append _ _ _ _ h₂]
  · obtain ⟨e, rfl⟩ := Nat.exists_eq_add_of_le (Nat.le_of_not_lt h₂)
    rw [← Nat.add_assoc, program_apply_add, program_apply_of_ge _ _ (by omega),
      List.getD_append_right _ _ _ _ (by omega), Nat.add_sub_cancel_left]

end Program

section Line

/-- Programming the line `pb` at `i` changes nothing. -/
def Neutral (m : Mem UInt8) (i : Nat) (pb : List UInt8) : Prop :=
  ∀ k, m (i + k) &&& pb.getD k 0xff = m (i + k)

theorem neutral_ones (m : Mem UInt8) (i n : Nat) : Neutral m i (List.replicate n 0xff) := by
  intro k
  by_cases hk : k < n
  · rw [List.getD_eq_getElem _ _ (by simpa using hk), List.getElem_replicate, and_ones]
  · rw [List.getD_eq_default _ _ (by simpa using hk), and_ones]

theorem neutral_read (m : Mem UInt8) (i n : Nat) : Neutral m i (m.read i n) := by
  intro k
  by_cases hk : k < n
  · rw [List.getD_eq_getElem _ _ (by simpa using hk)]
    simp [Mem.read]
  · rw [List.getD_eq_default _ _ (by simpa using hk), and_ones]

/-- A line with some of its bytes replaced programs these bytes only. -/
theorem program_splice {m : Mem UInt8} {i pos : Nat} {pb : List UInt8} (ys : List UInt8)
    (h : Neutral m i pb) (hp : pos ≤ pb.length) :
    program m i (pb.take pos ++ ys ++ pb.drop (pos + ys.length)) = program m (i + pos) ys := by
  have hlen : (pb.take pos).length = pos := List.length_take_of_le hp
  funext k
  by_cases h₁ : k < i
  · rw [program_apply_of_lt _ _ _ h₁, program_apply_of_lt _ _ _ (by omega)]
  obtain ⟨d, rfl⟩ := Nat.exists_eq_add_of_le (Nat.le_of_not_lt h₁)
  rw [program_apply_add, List.append_assoc]
  by_cases h₂ : d < pos
  · rw [program_apply_of_lt _ _ _ (by omega), List.getD_append _ _ _ _ (by omega)]
    have htake : (pb.take pos).getD d 0xff = pb.getD d 0xff := by
      rw [List.getD_eq_getElem _ _ (by omega), List.getElem_take,
        List.getD_eq_getElem _ _ (by omega)]
    rw [htake, h d]
  obtain ⟨e, rfl⟩ := Nat.exists_eq_add_of_le (Nat.le_of_not_lt h₂)
  rw [← Nat.add_assoc, program_apply_add, List.getD_append_right _ _ _ _ (by omega), hlen,
    Nat.add_sub_cancel_left]
  by_cases h₃ : e < ys.length
  · rw [List.getD_append _ _ _ _ h₃]
  · rw [List.getD_append_right _ _ _ _ (by omega), List.getD_eq_default ys _ (by omega), and_ones]
    have hdrop : (pb.drop (pos + ys.length)).getD (e - ys.length) 0xff =
        pb.getD (pos + e) 0xff := by
      rw [List.getD_eq_getElem?_getD, List.getElem?_drop, List.getD_eq_getElem?_getD,
        show pos + ys.length + (e - ys.length) = pos + e by omega]
    rw [hdrop, Nat.add_assoc]
    exact h (pos + e)

end Line

section Word

theorem lineAddr_toNat (a : UInt32) : (lineAddr a).toNat = a.toNat / 32 * 32 := by
  have h : lineAddr a = (a >>> 5) <<< 5 := by
    apply UInt32.eq_of_toBitVec_eq
    apply BitVec.eq_of_getLsbD_eq
    intro i hi
    interval_cases i <;> simp [lineAddr, UInt32.toBitVec_ofNat]
  rw [h]
  have := a.toNat_lt
  simp [UInt32.toNat_shiftLeft, UInt32.toNat_shiftRight, Nat.shiftLeft_eq,
    Nat.shiftRight_eq_div_pow]
  omega

theorem getLsbD_high {a : UInt32} (h : a.toNat < 2 ^ 24) {j : Nat} (hj : 24 ≤ j) :
    a.toBitVec.getLsbD j = false :=
  Nat.testBit_lt_two_pow (Nat.lt_of_lt_of_le h (Nat.pow_le_pow_right (by decide) hj))

theorem sectorAddr_toNat {a : UInt32} (h : a.toNat < 2 ^ 24) :
    (a &&& (0xfff000 : UInt32)).toNat = a.toNat / 4096 * 4096 := by
  have hshift : a &&& (0xfff000 : UInt32) = (a >>> 12) <<< 12 := by
    apply UInt32.eq_of_toBitVec_eq
    apply BitVec.eq_of_getLsbD_eq
    intro i hi
    by_cases hlow : i < 24
    · interval_cases i <;> simp [UInt32.toBitVec_ofNat]
    · have hhigh : a.toBitVec[i] = false := by
        rw [← BitVec.getLsbD_eq_getElem, getLsbD_high h (by omega)]
      have h24 : 24 ≤ i := by omega
      interval_cases i <;> simp [UInt32.toBitVec_ofNat, hhigh]
  rw [hshift]
  simp [UInt32.toNat_shiftLeft, UInt32.toNat_shiftRight, Nat.shiftLeft_eq,
    Nat.shiftRight_eq_div_pow]
  omega

/-- An address of up to 24 bits comes through to the chip. -/
theorem addrSw_operateWord {a : UInt32} (op r : UInt32) (h : a.toNat < 2 ^ 24) :
    addrSw (operateWord a op r) = a := by
  apply UInt32.eq_of_toBitVec_eq
  apply BitVec.eq_of_getLsbD_eq
  intro i hi
  by_cases hlow : i < 24
  · interval_cases i <;>
      simp [addrSw, operateWord, opSw, wpValue, UInt32.toBitVec_ofNat]
  · rw [getLsbD_high h (by omega)]
    have h24 : 24 ≤ i := by omega
    interval_cases i <;> simp [addrSw, UInt32.toBitVec_ofNat]

theorem opTypeSw_operateWord {a : UInt32} (op r : UInt32) (h : a.toNat < 2 ^ 24)
    (hop : op &&& 0x1f = op) : opTypeSw (operateWord a op r) = op := by
  rw [← hop]
  apply UInt32.eq_of_toBitVec_eq
  apply BitVec.eq_of_getLsbD_eq
  intro i hi
  have hhigh (j : Nat) (hj : j < 32) (hj' : 24 ≤ j) : a.toBitVec[j] = false := by
    rw [← BitVec.getLsbD_eq_getElem, getLsbD_high h hj']
  interval_cases i <;>
    simp [opTypeSw, operateWord, opSw, wpValue, UInt32.toBitVec_ofNat, hhigh]

end Word

/-- The address field holds every address of every configured chip. -/
theorem flashSize_le {size : UInt32} (h : size ∈ flashConfigSizes) : size.toNat ≤ 2 ^ 24 := by
  have hall : ∀ size ∈ flashConfigSizes, size.toNat ≤ 2 ^ 24 := by simp [flashConfigSizes]
  exact hall size h

/-- The configured chips have whole lines, and room behind them in the address field. -/
theorem flashConfigSizes_line {size : UInt32} (h : size ∈ flashConfigSizes) :
    size.toNat % 32 = 0 ∧ size.toNat ≤ 2 ^ 23 := by
  have hall : ∀ size ∈ flashConfigSizes, size.toNat % 32 = 0 ∧ size.toNat ≤ 2 ^ 23 := by
    simp [flashConfigSizes]
  exact hall size h

section Operate

variable (f : Chip) {addr : UInt32} (h : addr.toNat < 2 ^ 24)
include h

theorem operate_read (r : UInt32) (data : List UInt8) :
    f.operate (operateWord addr flashOpcodeRead r) data =
      { f with
        operateSw := operateWord addr flashOpcodeRead r
        dataFlashSw := f.cells.read addr.toNat 32 } := by
  simp only [Chip.operate, opTypeSw_operateWord flashOpcodeRead r h rfl,
    addrSw_operateWord _ r h, if_true]

theorem operate_pp (r : UInt32) (data : List UInt8) :
    f.operate (operateWord addr flashOpcodePp r) data =
      { f with
        operateSw := operateWord addr flashOpcodePp r
        cells := program f.cells addr.toNat data } := by
  simp only [Chip.operate, opTypeSw_operateWord flashOpcodePp r h rfl,
    addrSw_operateWord _ r h, if_true]
  rfl

theorem operate_se (r : UInt32) (data : List UInt8) :
    f.operate (operateWord addr flashOpcodeSe r) data =
      { f with
        operateSw := operateWord addr flashOpcodeSe r
        cells := fun k => if k / 4096 = addr.toNat / 4096 then 0xff else f.cells k } := by
  simp only [Chip.operate, opTypeSw_operateWord flashOpcodeSe r h rfl,
    addrSw_operateWord _ r h, if_true]
  rfl

/-- An erase reaches one sector, if that is on the chip. -/
theorem flashEraseSector_cells (k : Nat) :
    (flashEraseSector f addr).cells k =
      if addr.toNat / 4096 * 4096 < f.flashSize.toNat ∧ k / 4096 = addr.toNat / 4096 then 0xff
      else f.cells k := by
  have haddr := sectorAddr_toNat h
  have hlt : (addr &&& (0xfff000 : UInt32)).toNat < 2 ^ 24 := by omega
  unfold flashEraseSector
  simp only [ge_iff_le, UInt32.le_iff_toNat_le, haddr]
  split
  next hoff => rw [if_neg fun hin => absurd hin.1 (Nat.not_lt.mpr hoff)]
  next hon =>
    rw [operate_se f hlt]
    simp only [haddr, Nat.mul_div_cancel _ (by decide : 0 < 4096), Nat.not_le.mp hon, true_and]

omit h in
theorem flashEraseSector_flashSize : (flashEraseSector f addr).flashSize = f.flashSize := by
  unfold flashEraseSector Chip.operate
  dsimp only
  repeat' split
  all_goals rfl

end Operate

section Rounds

variable {address len : UInt32}

/-- What a round of either loop does to its counters. -/
structure Round (address len : UInt32) : Prop where
  pos : 0 < lineCount address len
  le : lineCount address len ≤ len.toNat
  inLine : address.toNat % 32 + lineCount address len ≤ 32
  address_next : (address + UInt32.ofNat (lineCount address len)).toNat =
    address.toNat + lineCount address len
  len_next : (len - UInt32.ofNat (lineCount address len)).toNat = len.toNat - lineCount address len
  next : len - UInt32.ofNat (lineCount address len) ≠ 0 →
    lineAddr address + 32 = lineAddr (address + UInt32.ofNat (lineCount address len))

theorem pos_toNat (address : UInt32) : (address % 32).toNat = address.toNat % 32 :=
  UInt32.toNat_mod ..

theorem round (h0 : len ≠ 0) (hfit : address.toNat + len.toNat ≤ 2 ^ 24) :
    Round address len := by
  have hlen : len.toNat ≠ 0 := fun h => h0 (UInt32.toNat_inj.mp h)
  have hmod : address.toNat % 32 < 32 := Nat.mod_lt _ (by decide)
  have hn : lineCount address len = min (32 - address.toNat % 32) len.toNat := by
    rw [lineCount, pos_toNat]
  have hle : lineCount address len ≤ len.toNat := by omega
  have hnat : (UInt32.ofNat (lineCount address len)).toNat = lineCount address len :=
    UInt32.toNat_ofNat_of_lt' (Nat.lt_of_le_of_lt hle len.toNat_lt)
  have hadd : (address + UInt32.ofNat (lineCount address len)).toNat =
      address.toNat + lineCount address len := by
    rw [UInt32.toNat_add, hnat]
    exact Nat.mod_eq_of_lt (by omega)
  have hsub : (len - UInt32.ofNat (lineCount address len)).toNat =
      len.toNat - lineCount address len := by
    rw [UInt32.toNat_sub_of_le _ _ (by rw [UInt32.le_iff_toNat_le, hnat]; exact hle), hnat]
  refine ⟨by omega, hle, by omega, hadd, hsub, fun hnext => ?_⟩
  have hnext' : (len - UInt32.ofNat (lineCount address len)).toNat ≠ 0 :=
    fun h => hnext (UInt32.toNat_inj.mp h)
  apply UInt32.toNat_inj.mp
  rw [UInt32.toNat_add, lineAddr_toNat, lineAddr_toNat, hadd]
  simp only [UInt32.reduceToNat]
  omega

/-- Both loops work on one line after the other. -/
theorem lineAddr_lt (hlt : address.toNat < 2 ^ 24) : (lineAddr address).toNat < 2 ^ 24 := by
  rw [lineAddr_toNat]
  omega

structure Chip.Same (f f' : Chip) : Prop where
  cells : f'.cells = f.cells
  flashSize : f'.flashSize = f.flashSize

theorem readLines_spec {f : Chip} {fuel : Nat} {addr : UInt32} (hfuel : len.toNat ≤ fuel)
    (hline : len ≠ 0 → addr = lineAddr address) (hfit : address.toNat + len.toNat ≤ 2 ^ 24) :
    f.Same (readLines f fuel addr address len).1 ∧
      (readLines f fuel addr address len).2 = f.cells.read address.toNat len.toNat := by
  induction fuel generalizing f addr address len with
  | zero =>
    rw [Nat.le_zero.mp hfuel]
    exact ⟨⟨rfl, rfl⟩, rfl⟩
  | succ fuel ih =>
    unfold readLines
    split
    next h0 =>
      subst h0
      exact ⟨⟨rfl, rfl⟩, rfl⟩
    next h0 =>
      have hr := round h0 hfit
      have hlen : len.toNat ≠ 0 := fun h => h0 (UInt32.toNat_inj.mp h)
      have haddr := hline h0
      subst haddr
      simp only [operate_read f (lineAddr_lt (by omega : address.toNat < 2 ^ 24))]
      have hsame := ih (f := { f with
          operateSw := operateWord (lineAddr address) flashOpcodeRead f.operateSw
          dataFlashSw := f.cells.read (lineAddr address).toNat 32 })
        (by rw [hr.len_next]; have := hr.pos; omega) hr.next
        (by rw [hr.address_next, hr.len_next]; have := hr.le; omega)
      refine ⟨⟨hsame.1.cells, hsame.1.flashSize⟩, ?_⟩
      rw [hsame.2, pos_toNat, lineAddr_toNat, hr.address_next, hr.len_next]
      have := hr.inLine
      have := hr.le
      rw [Mem.drop_read _ (by omega), Mem.take_read _ (by omega), Nat.div_add_mod',
        ← Mem.read_add, Nat.add_sub_cancel' hr.le]

theorem flashReadData_spec (f : Chip) (address len : UInt32)
    (hfit : address.toNat + len.toNat ≤ 2 ^ 24) :
    f.Same (flashReadData f address len).1 ∧
      (flashReadData f address len).2 = f.cells.read address.toNat len.toNat :=
  readLines_spec (Nat.le_refl _) (fun _ => rfl) hfit

/-- A line as `flash_write_data` prepares it. -/
structure Prepared (f : Chip) (i : Nat) (line : Chip × List UInt8) : Prop where
  same : f.Same line.1
  length : line.2.length = 32
  neutral : Neutral f.cells i line.2

theorem prepared_read (f : Chip) (hlt : address.toNat < 2 ^ 24) :
    Prepared f (lineAddr address).toNat (flashReadData f (lineAddr address) 32) := by
  have hfit : (lineAddr address).toNat + (32 : UInt32).toNat ≤ 2 ^ 24 := by
    rw [lineAddr_toNat]
    simp only [UInt32.reduceToNat]
    omega
  obtain ⟨hsame, hread⟩ := flashReadData_spec f _ _ hfit
  refine ⟨hsame, ?_, ?_⟩ <;> rw [hread]
  · simp
  · exact neutral_read _ _ _

/-- `f'` is `f` after the bytes `xs` were programmed at `i`. -/
structure Programs (f : Chip) (i : Nat) (xs : List UInt8) (f' : Chip) : Prop where
  cells : f'.cells = program f.cells i xs
  flashSize : f'.flashSize = f.flashSize

theorem Programs.nil (f : Chip) (i : Nat) : Programs f i [] f :=
  ⟨(program_nil _ _).symm, rfl⟩

theorem Programs.append {f f' f'' : Chip} {i : Nat} {xs ys : List UInt8}
    (h : Programs f i xs f') (h' : Programs f' (i + xs.length) ys f'') :
    Programs f i (xs ++ ys) f'' where
  cells := by rw [h'.cells, h.cells, program_append]
  flashSize := h'.flashSize.trans h.flashSize

theorem writeLines_programs {f : Chip} {fuel : Nat} {pb buffer : List UInt8} {addr : UInt32}
    (hfuel : len.toNat ≤ fuel) (hline : len ≠ 0 → addr = lineAddr address)
    (hpb : len ≠ 0 → Prepared f (lineAddr address).toNat (f, pb))
    (hbuf : buffer.length = len.toNat) (hfit : address.toNat + len.toNat ≤ 2 ^ 24) :
    Programs f address.toNat buffer (writeLines f fuel pb buffer addr address len) := by
  induction fuel generalizing f pb buffer addr address len with
  | zero =>
    rw [List.length_eq_zero_iff.mp (show buffer.length = 0 by omega)]
    exact .nil f _
  | succ fuel ih =>
    unfold writeLines
    split
    next h0 =>
      rw [List.length_eq_zero_iff.mp (show buffer.length = 0 by rw [hbuf, h0]; rfl)]
      exact .nil f _
    next h0 =>
      have hr := round h0 hfit
      have hlen : len.toNat ≠ 0 := fun h => h0 (UInt32.toNat_inj.mp h)
      have hlt : address.toNat < 2 ^ 24 := by omega
      have haddr := hline h0
      subst haddr
      have hprep : Prepared f (lineAddr address).toNat
          (if len < 32 then flashReadData f (lineAddr address) 32 else (f, pb)) := by
        split
        next => exact prepared_read f hlt
        next => exact hpb h0
      simp only [operate_pp _ (lineAddr_lt hlt)]
      generalize (if len < 32 then flashReadData f (lineAddr address) 32 else (f, pb)) = line
        at hprep
      have htake : (buffer.take (lineCount address len)).length = lineCount address len :=
        List.length_take_of_le (by rw [hbuf]; exact hr.le)
      have hcells := program_splice (buffer.take (lineCount address len)) hprep.neutral
        (show (address % 32).toNat ≤ line.2.length by
          rw [hprep.length, pos_toNat]
          omega)
      rw [htake, pos_toNat, lineAddr_toNat, Nat.div_add_mod'] at hcells
      rw [← List.take_append_drop (lineCount address len) buffer]
      have hfirst : Programs f address.toNat (buffer.take (lineCount address len))
          { line.1 with
            operateSw := operateWord (lineAddr address) flashOpcodePp line.1.operateSw
            cells := program line.1.cells (lineAddr address).toNat
              (line.2.take (address % 32).toNat ++ buffer.take (lineCount address len) ++
                line.2.drop ((address % 32).toNat + lineCount address len)) } :=
        ⟨by simp only [hprep.same.cells, pos_toNat, lineAddr_toNat, hcells],
          hprep.same.flashSize⟩
      refine hfirst.append ?_
      rw [htake, ← hr.address_next, List.take_append_drop]
      refine ih ?_ hr.next (fun _ => ⟨⟨rfl, rfl⟩, by simp, neutral_ones _ _ _⟩) ?_ ?_
      · rw [hr.len_next]
        have := hr.pos
        omega
      · rw [List.length_drop, hbuf, hr.len_next]
      · rw [hr.address_next, hr.len_next]
        have := hr.le
        omega

/-- The calls that `flash_write_data` answers with an error. -/
def Refused (flashSize address len : UInt32) : Prop :=
  lineAddr address ≥ flashSize ∨ len > flashSize ∨ lineAddr address + len > flashSize

theorem flashWriteData_refused {f : Chip} {buffer : List UInt8}
    (h : Refused f.flashSize address len) : flashWriteData f buffer address len = f :=
  if_pos h

/-- Otherwise it programs its bytes and nothing else. -/
theorem flashWriteData_accepted (f : Chip) {buffer : List UInt8}
    (hbuf : buffer.length = len.toNat) (hfit : address.toNat + len.toNat ≤ 2 ^ 24)
    (hlt : address.toNat < 2 ^ 24) (hok : ¬ Refused f.flashSize address len) :
    Programs f address.toNat buffer (flashWriteData f buffer address len) := by
  have hprep : Prepared f (lineAddr address).toNat
      (if address % 32 ≠ 0 then flashReadData f (lineAddr address) 32
        else (f, List.replicate 32 0xff)) := by
    split
    next => exact prepared_read f hlt
    next => exact ⟨⟨rfl, rfl⟩, by simp, neutral_ones _ _ _⟩
  rw [flashWriteData]
  simp only [show ¬ (lineAddr address ≥ f.flashSize ∨ len > f.flashSize ∨
    lineAddr address + len > f.flashSize) from hok, if_false]
  generalize (if address % 32 ≠ 0 then flashReadData f (lineAddr address) 32
    else (f, List.replicate 32 0xff)) = line at hprep
  have hneutral : Neutral line.1.cells (lineAddr address).toNat line.2 := by
    rw [hprep.same.cells]
    exact hprep.neutral
  have hw := writeLines_programs (f := line.1) (Nat.le_refl _) (fun _ => rfl)
    (fun _ => ⟨⟨rfl, rfl⟩, hprep.length, hneutral⟩) hbuf hfit
  exact ⟨by rw [hw.cells, hprep.same.cells], hw.flashSize.trans hprep.same.flashSize⟩

theorem not_refused {flashSize : UInt32} (hlt : address.toNat < flashSize.toNat)
    (hfit : address.toNat + len.toNat ≤ flashSize.toNat) : ¬ Refused flashSize address len := by
  have hline := lineAddr_toNat address
  have hsize := flashSize.toNat_lt
  have hsum : (lineAddr address + len).toNat = (lineAddr address).toNat + len.toNat :=
    toNat_add_of_lt (by omega)
  simp only [Refused, ge_iff_le, gt_iff_lt, UInt32.le_iff_toNat_le, UInt32.lt_iff_toNat_lt, hsum]
  omega

/-- Inside the chip `flash_write_data` programs its bytes and nothing else. -/
theorem flashWriteData_programs (f : Chip) {buffer : List UInt8}
    (hbuf : buffer.length = len.toNat) (hsize : f.flashSize.toNat ≤ 2 ^ 24)
    (hfit : address.toNat + len.toNat ≤ f.flashSize.toNat) :
    Programs f address.toNat buffer (flashWriteData f buffer address len) := by
  have hline := lineAddr_toNat address
  by_cases hbad : Refused f.flashSize address len
  · have hend : ¬ address.toNat < f.flashSize.toNat := fun hlt => not_refused hlt hfit hbad
    rw [flashWriteData_refused hbad,
      List.length_eq_zero_iff.mp (show buffer.length = 0 by omega)]
    exact .nil f _
  · have hon : ¬ f.flashSize.toNat ≤ (lineAddr address).toNat := fun h => hbad (.inl h)
    exact flashWriteData_accepted f hbuf (by omega) (by omega) hbad

end Rounds

end BdkRtt.Flash
