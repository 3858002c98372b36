import BdkRtt.Flash.Partition
import BdkRtt.Lib.Machine
import Mathlib.Algebra.Group.Nat.Defs

namespace BdkRtt.Ota

open Lib Flash

/-- A request to the flash driver that changes the chip. -/
inductive FlashOp
  | erase (param : UInt32)
  | write (src : List UInt8) (addr : UInt32)

/-- `bk_http`, with the flash behind its handle.  `wrTmpBuf` says that `http_flash_init` got
the buffer for the read back; `pt` is the OTA partition. -/
structure HttpData where
  chip : Chip
  wrBuf : Mem UInt8
  wrLastLen : UInt16
  flashAddress : UInt32
  wrTmpBuf : Bool

def httpFlashWrBufMax : UInt32 := 1024

/-- The entry does not depend on the chip that the project is built for. -/
def otaPt : BkLogicPartition := bkFlashGetInfo false .ota

/-- `http_flash_init`; `os_malloc` gives a buffer with any content, and may give none for the
read back. -/
def httpFlashInit (f : Chip) (wrBuf : Mem UInt8) (wrTmpBuf : Bool) : HttpData :=
  ⟨f, wrBuf, 0, otaPt.partitionStartAddr, wrTmpBuf⟩

/-- `http_flash_wr`, with the requests it makes. -/
def httpFlashWr (d : HttpData) (src : List UInt8) (len : UInt32) : HttpData × List FlashOp :=
  let erases := d.flashAddress % 0x1000 = 0
  let f := if erases then flashEraseSector d.chip d.flashAddress else d.chip
  let erased := if erases then [.erase d.flashAddress] else []
  if d.flashAddress ≥ otaPt.partitionStartAddr ∧
      d.flashAddress + len < otaPt.partitionStartAddr + otaPt.partitionLength then
    let f := flashWrite f src len d.flashAddress
    -- the read back only prints whether it agrees
    let f := if d.wrTmpBuf then (flashRead f len d.flashAddress).1 else f
    ({ d with chip := f, flashAddress := d.flashAddress + len },
      erased ++ [.write src d.flashAddress])
  else ({ d with chip := f }, erased)

/-- The loop of `http_wr_to_flash`.  While the buffer has room a round takes at least one byte, so
`len` rounds are enough. -/
def wrToFlash (tmp : List UInt8) (len : UInt32) :
    Nat → HttpData → UInt32 → HttpData × List FlashOp
  | 0, d, _ => (d, [])
  | fuel + 1, d, i =>
    if i < len then
      let wL := min (len - i) (httpFlashWrBufMax - d.wrLastLen.toUInt32)
      let piece := (tmp.drop i.toNat).take wL.toNat
      let d := { d with
        wrBuf := d.wrBuf.write d.wrLastLen.toNat piece
        wrLastLen := d.wrLastLen + wL.toUInt16 }
      let r :=
        if d.wrLastLen.toUInt32 ≥ httpFlashWrBufMax then
          let w := httpFlashWr d (d.wrBuf.read 0 httpFlashWrBufMax.toNat) httpFlashWrBufMax
          ({ w.1 with wrLastLen := 0 }, w.2)
        else (d, [])
      let next := wrToFlash tmp len fuel r.1 (i + wL)
      (next.1, r.2 ++ next.2)
    else (d, [])

/-- What one call gets: a `UINT32` counts its bytes. -/
abbrev Page := { page : List UInt8 // page.length < 2 ^ 32 }

def httpWrToFlash (d : HttpData) (page : Page) : HttpData × List FlashOp :=
  wrToFlash page.1 (UInt32.ofNat page.1.length) page.1.length d 0

/-- The end of `httpclient_retrieve_content`: what is left in the buffer goes to the flash. -/
def httpFinish (d : HttpData) : HttpData × List FlashOp :=
  httpFlashWr d (d.wrBuf.read 0 d.wrLastLen.toNat) d.wrLastLen.toUInt32

/-- The writer between `http_flash_init` and the end of the content. -/
def httpWriter (f : Chip) (wrBuf : Mem UInt8) (wrTmpBuf : Bool) :
    Machine HttpData Page (List FlashOp) where
  init := httpFlashInit f wrBuf wrTmpBuf
  step d page := some (httpWrToFlash d page)

end BdkRtt.Ota
