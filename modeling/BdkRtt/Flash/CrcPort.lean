import BdkRtt.Flash.Driver
import Mathlib.Logic.Function.Iterate

namespace BdkRtt.Flash

open Lib

/-- `RT_FLASH_BEKEN_START_ADDR`, the `addr` of `beken_onchip_flash_crc` -/
def bekenOnchipFlashCrcAddr : UInt32 := 0x00000000

/-- The inner loop of `CRC16_CCITT_FALSE`, one round. -/
def crc16Shift (wCRCin : UInt16) : UInt16 :=
  if wCRCin &&& 0x8000 ≠ 0 then (wCRCin <<< 1) ^^^ 0x8005 else wCRCin <<< 1

def crc16Byte (wCRCin : UInt16) (wChar : UInt8) : UInt16 :=
  crc16Shift^[8] (wCRCin ^^^ (wChar.toUInt16 <<< 8))

def crc16CcittFalse (puchMsg : List UInt8) : UInt16 := puchMsg.foldl crc16Byte 0xffff

/-- The 34 bytes written for up to 32 bytes of data. -/
def crc16Buf (data : List UInt8) : List UInt8 :=
  let buf := data ++ List.replicate (32 - data.length) 0xff
  let crcValue := crc16CcittFalse buf
  buf ++ [(crcValue >>> 8).toUInt8, crcValue.toUInt8]

/-- The loop of `write`.  A round takes at least one byte, so `size` rounds are enough. -/
def writeBlocks : Nat → Chip → (buf : List UInt8) → (addr crcOffset : UInt32) → Chip
  | 0, f, _, _, _ => f
  | fuel + 1, f, buf, addr, crcOffset =>
    if buf.length = 0 then f
    else
      let len := if buf.length < 32 then buf.length else 32
      writeBlocks fuel (flashWrite f (crc16Buf (buf.take len)) 34 (addr + crcOffset))
        (buf.drop len) addr (crcOffset + 34)

/-- `write`, with the number of bytes it returns; the assertion stops an unaligned call. -/
def write (f : Chip) (offset : Nat) (buf : List UInt8) : Option (Chip × Nat) :=
  if offset % 32 = 0 then
    let addr := bekenOnchipFlashCrcAddr + UInt32.ofNat (offset / 32 * 34)
    some (writeBlocks buf.length f buf addr 0, buf.length)
  else none

/-- The loop of `read` over the blocks after the first. -/
def readBlocks : Nat → Chip → (stage1Offset : UInt32) → (stage1Len : Nat) → Chip × List UInt8
  | 0, f, _, _ => (f, [])
  | fuel + 1, f, stage1Offset, stage1Len =>
    if stage1Len = 0 then (f, [])
    else
      let len := if stage1Len > 32 then 32 else stage1Len
      let first := flashRead f (UInt32.ofNat len) stage1Offset
      let rest := readBlocks fuel first.1 (stage1Offset + 34) (stage1Len - len)
      (rest.1, first.2 ++ rest.2)

/-- `read`, with the bytes it puts in `buf`. -/
def read (f : Chip) (offset size : Nat) : Chip × List UInt8 :=
  let pos := offset % 32
  if pos > 0 then
    let stage0Offset := bekenOnchipFlashCrcAddr + UInt32.ofNat (offset / 32 * 34) + UInt32.ofNat pos
    let stage0Len := if size > 32 then 32 - pos else size
    let stage1Offset := stage0Offset + UInt32.ofNat stage0Len + 2
    let first :=
      if stage0Len > 0 then flashRead f (UInt32.ofNat stage0Len) stage0Offset else (f, [])
    let rest := readBlocks (size - stage0Len) first.1 stage1Offset (size - stage0Len)
    (rest.1, first.2 ++ rest.2)
  else readBlocks size f (bekenOnchipFlashCrcAddr + UInt32.ofNat (offset / 32 * 34)) size

/-- The loop of `erase`, with `addr` at its end. -/
def eraseLoop : Nat → Chip → (addr size : UInt32) → Chip × UInt32
  | 0, f, addr, _ => (f, addr)
  | fuel + 1, f, addr, size =>
    let f := flashEraseSector f addr
    let addr := addr + 4096
    let size := if size < 4096 then 0 else size - 4096
    if size = 0 then (f, addr) else eraseLoop fuel f addr size

/-- `erase`, with the size it returns.  A round takes 4096 off `_size`, or all of it. -/
def erase (f : Chip) (offset size : Nat) : Chip × UInt32 :=
  let size := UInt32.ofNat (size / 32 * 34)
  let offset := UInt32.ofNat (offset / 32 * 34) &&& 0x00fff000
  let addr := bekenOnchipFlashCrcAddr + offset
  let r := eraseLoop (size.toNat / 4096 + 1) f addr size
  (r.1, r.2 - (bekenOnchipFlashCrcAddr + offset))

end BdkRtt.Flash
