import BdkRtt.Lib.Crc
import BdkRtt.Flash.CrcPort
import BdkRtt.Flash.DriverLaws
import BdkRtt.Lib.Words

namespace BdkRtt.Flash

open Lib

section Crc

theorem crc16Shift_toBitVec (w : UInt16) :
    (crc16Shift w).toBitVec = Crc.shift 0x8005#16 w.toBitVec := by
  have hand : (w &&& 0x8000).toBitVec =
      if w.toBitVec.getLsbD 15 then BitVec.twoPow 16 15 else 0#16 :=
    BitVec.and_twoPow w.toBitVec 15
  have hmsb : (w &&& 0x8000 ≠ 0) ↔ w.toBitVec.msb = true := by
    rw [ne_eq, ← UInt16.toBitVec_inj, hand, BitVec.msb_eq_getLsbD_last]
    cases w.toBitVec.getLsbD 15 <;> decide
  unfold crc16Shift Crc.shift
  simp only [hmsb]
  split <;> rfl

theorem crc16Byte_toBitVec (w : UInt16) (b : UInt8) :
    (crc16Byte w b).toBitVec = Crc.feed 0x8005#16 w.toBitVec b.toBitVec := by
  have hshift (n : Nat) (w : UInt16) :
      (crc16Shift^[n] w).toBitVec = (Crc.shift 0x8005#16)^[n] w.toBitVec :=
    Function.Semiconj.iterate_right crc16Shift_toBitVec n w
  rw [crc16Byte, hshift]
  rfl

/-- `CRC16_CCITT_FALSE` is the register for the polynomial 8005, started with ones. -/
theorem crc16CcittFalse_toBitVec (msg : List UInt8) :
    (crc16CcittFalse msg).toBitVec =
      Crc.checksum 0x8005#16 0xffff#16 (msg.map UInt8.toBitVec) := by
  have hfold (w : UInt16) : (msg.foldl crc16Byte w).toBitVec =
      Crc.checksum 0x8005#16 w.toBitVec (msg.map UInt8.toBitVec) := by
    induction msg generalizing w with
    | nil => rfl
    | cons b msg ih =>
      rw [List.foldl_cons, ih, crc16Byte_toBitVec]
      rfl
  exact hfold 0xffff

end Crc

section Blocks

theorem length_crc16Buf {data : List UInt8} (h : data.length ≤ 32) :
    (crc16Buf data).length = 34 := by
  simp [crc16Buf]
  omega

/-- What `write` puts into the flash. -/
def encode (buf : List UInt8) : List UInt8 :=
  if buf.length = 0 then [] else crc16Buf (buf.take 32) ++ encode (buf.drop 32)
termination_by buf.length
decreasing_by
  rw [List.length_drop]
  omega

/-- The blocks a write of `n` bytes takes. -/
def blocks (n : Nat) : Nat := (n + 31) / 32

theorem length_encode (buf : List UInt8) : (encode buf).length = 34 * blocks buf.length := by
  induction buf using encode.induct with
  | case1 buf h =>
    rw [encode, if_pos h, h]
    rfl
  | case2 buf h ih =>
    rw [encode, if_neg h, List.length_append, length_crc16Buf (List.length_take_le _ _), ih,
      List.length_drop]
    unfold blocks
    omega

theorem block_encode {buf : List UInt8} {j : Nat} (hj : j < blocks buf.length) :
    ((encode buf).drop (34 * j)).take 34 = crc16Buf ((buf.drop (32 * j)).take 32) := by
  induction j generalizing buf with
  | zero =>
    have h : buf.length ≠ 0 := by unfold blocks at hj; omega
    rw [encode, if_neg h]
    exact List.take_left' (length_crc16Buf (List.length_take_le _ _))
  | succ j ih =>
    have h : buf.length ≠ 0 := by unfold blocks at hj; omega
    have hnext : j < blocks (buf.drop 32).length := by
      unfold blocks at hj ⊢
      rw [List.length_drop]
      omega
    rw [encode, if_neg h, Nat.mul_succ, Nat.add_comm, ← List.drop_drop,
      List.drop_left' (length_crc16Buf (List.length_take_le _ _)), ih hnext, List.drop_drop,
      Nat.mul_succ, Nat.add_comm (32 * j)]

theorem writeBlocks_succ (fuel : Nat) (f : Chip) (buf : List UInt8) (addr crcOffset : UInt32) :
    writeBlocks (fuel + 1) f buf addr crcOffset =
      if buf.length = 0 then f
      else writeBlocks fuel (flashWrite f (crc16Buf (buf.take 32)) 34 (addr + crcOffset))
        (buf.drop 32) addr (crcOffset + 34) := by
  rw [writeBlocks]
  split
  next => rfl
  next =>
    simp only
    split
    next h =>
      rw [List.take_of_length_le (Nat.le_refl _), List.take_of_length_le (Nat.le_of_lt h),
        List.drop_of_length_le (Nat.le_refl _), List.drop_of_length_le (Nat.le_of_lt h)]
    next => rfl

theorem writeBlocks_programs {f : Chip} {fuel : Nat} {buf : List UInt8}
    {addr crcOffset : UInt32} (hfuel : buf.length ≤ fuel) (hsize : f.flashSize.toNat ≤ 2 ^ 24)
    (hfit : addr.toNat + crcOffset.toNat + (encode buf).length ≤ f.flashSize.toNat) :
    Programs f (addr.toNat + crcOffset.toNat) (encode buf)
      (writeBlocks fuel f buf addr crcOffset) := by
  induction fuel generalizing f buf crcOffset with
  | zero =>
    rw [encode, if_pos (Nat.le_zero.mp hfuel)]
    exact .nil f _
  | succ fuel ih =>
    rw [writeBlocks_succ]
    split
    next h =>
      rw [encode, if_pos h]
      exact .nil f _
    next h =>
      have hlen := length_crc16Buf (List.length_take_le 32 buf)
      rw [encode, if_neg h, List.length_append, hlen] at hfit
      rw [encode, if_neg h]
      have haddr : (addr + crcOffset).toNat = addr.toNat + crcOffset.toNat :=
        toNat_add_of_lt (by omega)
      have hoff : (crcOffset + 34).toNat = crcOffset.toNat + 34 :=
        toNat_add_of_lt (by simp only [UInt32.reduceToNat]; omega)
      have hfirst : Programs f (addr + crcOffset).toNat (crc16Buf (buf.take 32))
          (flashWrite f (crc16Buf (buf.take 32)) 34 (addr + crcOffset)) :=
        flashWriteData_programs f hlen hsize (by rw [haddr]; simp only [UInt32.reduceToNat]; omega)
      rw [haddr] at hfirst
      refine hfirst.append ?_
      rw [hlen, Nat.add_assoc, ← hoff]
      refine ih ?_ ?_ ?_
      · rw [List.length_drop]
        omega
      · rw [hfirst.flashSize]
        exact hsize
      · rw [hfirst.flashSize, hoff]
        omega

end Blocks

end BdkRtt.Flash
