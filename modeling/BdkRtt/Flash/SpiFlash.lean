import BdkRtt.Lib.Mem
import Mathlib.Algebra.Group.Nat.Defs

/-! The NOR flash on the SPI bus and its driver. -/

namespace BdkRtt.Flash.SpiFlash

open Lib

def flashPhyPageSize : Nat := 256

def cmdReadStatus : UInt8 := 0x05
def flashStatusWipBit : UInt8 := 0x1
def flashStatusWelBit : UInt8 := 0x2
def cmdReadData : UInt8 := 0x03
def cmdPageProg : UInt8 := 0x02
def cmdWriteEnable : UInt8 := 0x06

section Chip

/-- The chip: its cells, the write enable latch, how often the status will still say that it is
busy, and how often it will say so after each program to come. -/
structure Chip where
  cells : Mem UInt8
  wel : Bool
  busy : Nat
  times : List Nat

/-- The three address bytes of a command. -/
def address (a₂ a₁ a₀ : UInt8) : Nat := a₂.toNat * 65536 + a₁.toNat * 256 + a₀.toNat

/-- The cells after a program of at most a page.  It clears bits from `addr` on and goes round in
the page that `addr` is in. -/
def pageProgram (m : Mem UInt8) (addr : Nat) (data : List UInt8) : Mem UInt8 := fun k =>
  if k / 256 = addr / 256 then m k &&& data.getD ((k + 256 - addr % 256) % 256) 0xff else m k

def Chip.status (c : Chip) : UInt8 :=
  (if c.busy ≠ 0 then flashStatusWipBit else 0) ||| if c.wel then flashStatusWelBit else 0

/-- What the chip makes of the arguments of a command, and the bytes it sends.  While it is busy it
takes none but the one for its status. -/
def Chip.command (c : Chip) (op : UInt8) (args : List UInt8) (recvLen : Nat) :
    Chip × List UInt8 :=
  if op = cmdReadStatus then ({ c with busy := c.busy - 1 }, List.replicate recvLen c.status)
  else if c.busy ≠ 0 then (c, List.replicate recvLen 0xff)
  else if op = cmdWriteEnable then ({ c with wel := true }, List.replicate recvLen 0xff)
  else match args with
    | a₂ :: a₁ :: a₀ :: data =>
      if op = cmdPageProg ∧ c.wel then
        ({ cells := pageProgram c.cells (address a₂ a₁ a₀) data
           wel := false
           busy := c.times.headD 0
           times := c.times.tail }, List.replicate recvLen 0xff)
      else if op = cmdReadData then
        (c, (List.range recvLen).map fun k => c.cells ((address a₂ a₁ a₀ + k) % 2 ^ 24))
      else (c, List.replicate recvLen 0xff)
    | _ => (c, List.replicate recvLen 0xff)

/-- `bk_spi_master_xfer`, which puts the bytes that the chip sends in `recv_buf`. -/
def Chip.bkSpiMasterXfer (c : Chip) (sendBuf : List UInt8) (recvLen : Nat) : Chip × List UInt8 :=
  match sendBuf with
  | [] => (c, List.replicate recvLen 0xff)
  | op :: args => c.command op args recvLen

end Chip

section Driver

def Chip.spiFlashSendCommand (c : Chip) (cmd : UInt8) : Chip := (c.bkSpiMasterXfer [cmd] 0).1

def Chip.spiFlashIsBusy (c : Chip) : Chip × UInt8 :=
  let (c, ustatus) := c.bkSpiMasterXfer [cmdReadStatus] 1
  (c, ustatus.headD 0 &&& flashStatusWipBit)

/-- `while(spi_flash_is_busy())` -/
def whileBusy : Nat → Chip → Chip
  | 0, c => c
  | fuel + 1, c =>
    let (c, busy) := c.spiFlashIsBusy
    if busy ≠ 0 then whileBusy fuel c else c

/-- Each status read is one of those that the chip is busy for. -/
def Chip.waitReady (c : Chip) : Chip := whileBusy (c.busy + 1) c

def addrBytes (addr : Nat) : List UInt8 :=
  [UInt8.ofNat (addr >>> 16), UInt8.ofNat (addr >>> 8), UInt8.ofNat addr]

/-- `dst` is the memory at the pointer, unless that is null. -/
def Chip.spiFlashReadPage (c : Chip) (addr size : Nat) (dst : Option (Mem UInt8)) (i : Nat) :
    Chip × Nat × Option (Mem UInt8) :=
  match dst with
  | none => (c, 1, none)
  | some dst =>
    if flashPhyPageSize < size then (c, 1, some dst)
    else if size = 0 then (c, 0, some dst)
    else
      let (c, recvBuf) := c.waitReady.bkSpiMasterXfer (cmdReadData :: addrBytes addr) size
      (c, 0, some (dst.write i recvBuf))

/-- `malloc` says whether `os_malloc` finds memory. -/
def Chip.spiFlashProgramPage (c : Chip) (addr size : Nat) (src : Option (List UInt8))
    (malloc : Bool) : Chip × Nat :=
  match src with
  | none => (c, 1)
  | some src =>
    if flashPhyPageSize < size then (c, 1)
    else if size = 0 then (c, 0)
    else if malloc = false then (c, 1)
    else
      let ucmd := cmdPageProg :: (addrBytes addr ++ src.take size)
      let c := (c.waitReady.spiFlashSendCommand cmdWriteEnable).waitReady
      ((c.bkSpiMasterXfer ucmd 0).1, 0)

/-- The size of the next page. -/
def dsize (size i : Nat) : Nat := if flashPhyPageSize ≤ size - i then flashPhyPageSize else size - i

/-- The loop of `spi_flash_read`.  A round moves at least one byte, so `size` rounds are enough. -/
def readPages (size : Nat) : Nat → Chip → (addr : Nat) → Option (Mem UInt8) → (i : Nat) →
    Chip × Nat × Option (Mem UInt8)
  | 0, c, _, dst, _ => (c, 0, dst)
  | fuel + 1, c, addr, dst, i =>
    if i < size then
      let (c, ret, dst) := c.spiFlashReadPage addr (dsize size i) dst i
      if ret ≠ 0 then (c, 1, dst)
      else readPages size fuel c (addr + dsize size i) dst (i + dsize size i)
    else (c, 0, dst)

def Chip.spiFlashRead (c : Chip) (addr size : Nat) (dst : Option (Mem UInt8)) :
    Chip × Nat × Option (Mem UInt8) :=
  if dst.isNone then (c, 1, dst)
  else if size = 0 then (c, 0, dst)
  else readPages size size c addr dst 0

/-- The loop of `spi_flash_write`; `malloc i` is the answer of `os_malloc` in the round at `i`. -/
def writePages (size : Nat) (malloc : Nat → Bool) : Nat → Chip → (addr : Nat) → List UInt8 →
    (i : Nat) → Chip × Nat
  | 0, c, _, _, _ => (c, 0)
  | fuel + 1, c, addr, src, i =>
    if i < size then
      let (c, ret) := c.spiFlashProgramPage addr (dsize size i) (some src) (malloc i)
      if ret ≠ 0 then (c, 1)
      else writePages size malloc fuel c (addr + dsize size i) (src.drop (dsize size i))
        (i + dsize size i)
    else (c, 0)

def Chip.spiFlashWrite (c : Chip) (addr size : Nat) (src : Option (List UInt8))
    (malloc : Nat → Bool) : Chip × Nat :=
  match src with
  | none => (c, 1)
  | some src => if size = 0 then (c, 0) else writePages size malloc size c addr src 0

end Driver

end BdkRtt.Flash.SpiFlash
