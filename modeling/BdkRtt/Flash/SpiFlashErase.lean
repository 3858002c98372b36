import BdkRtt.Flash.SpiFlash

/-! The erase commands of the NOR flash on the SPI bus. -/

namespace BdkRtt.Flash.SpiFlash

open Lib

def cmdEraseAll : UInt8 := 0xc7
def cmdEraseBlk64k : UInt8 := 0xD8
def cmdEraseBlk32k : UInt8 := 0x52
def cmdEraseSector : UInt8 := 0x20

inductive EraseMode
  | all
  | block64k
  | block32k
  | sector
deriving DecidableEq

section Chip

/-- Cells that have been erased. -/
structure Block where
  start : Nat
  len : Nat
deriving DecidableEq

def Block.Has (b : Block) (k : Nat) : Prop := b.start ≤ k ∧ k < b.start + b.len

instance (b : Block) (k : Nat) : Decidable (b.Has k) := inferInstanceAs (Decidable (_ ∧ _))

/-- The aligned block of a size that an address lies in. -/
def blockOf (len addr : Nat) : Block := ⟨addr - addr % len, len⟩

/-- The chip, with the blocks that it has been made to erase. -/
structure Eraser where
  chip : Chip
  blocks : List Block

/-- An erase ends the write enable and takes its time like a program. -/
def Eraser.erase (c : Eraser) (b : Block) : Eraser where
  chip :=
    { cells := fun k => if b.Has k then 0xff else c.chip.cells k
      wel := false
      busy := c.chip.times.headD 0
      times := c.chip.times.tail }
  blocks := c.blocks ++ [b]

/-- What the erase commands erase. -/
def eraseLen (op : UInt8) : Option Nat :=
  if op = cmdEraseSector then some 4096
  else if op = cmdEraseBlk32k then some 32768
  else if op = cmdEraseBlk64k then some 65536
  else none

def Eraser.command (c : Eraser) (op : UInt8) (args : List UInt8) : Eraser :=
  if c.chip.busy ≠ 0 ∨ c.chip.wel = false then { c with chip := (c.chip.command op args 0).1 }
  else match eraseLen op, args with
    | some len, [a₂, a₁, a₀] => c.erase (blockOf len (address a₂ a₁ a₀))
    | _, _ =>
      if op = cmdEraseAll then c.erase ⟨0, 2 ^ 24⟩
      else { c with chip := (c.chip.command op args 0).1 }

def Eraser.bkSpiMasterXfer (c : Eraser) (sendBuf : List UInt8) : Eraser :=
  match sendBuf with
  | [] => c
  | op :: args => c.command op args

end Chip

section Driver

/-- `ucmd` of `spi_flash_earse`. -/
def EraseMode.ucmd (addr : UInt32) : EraseMode → List UInt8
  | .all => [cmdEraseAll]
  | .block64k => cmdEraseBlk64k :: addrBytes addr.toNat
  | .block32k => cmdEraseBlk32k :: addrBytes addr.toNat
  | .sector => cmdEraseSector :: addrBytes addr.toNat

def Eraser.spiFlashEarse (c : Eraser) (addr : UInt32) (mode : EraseMode) : Eraser :=
  let chip := (c.chip.waitReady.spiFlashSendCommand cmdWriteEnable).waitReady
  { c with chip }.bkSpiMasterXfer (mode.ucmd addr)

/-- `erase_size` and `erase_mode` of a round. -/
def eraseMode (leftSize : Int) (size : UInt32) : UInt32 × EraseMode :=
  if leftSize ≤ 4 * 1024 then (4 * 1024, .sector)
  else if size ≤ 32 * 1024 then (32 * 1024, .block32k)
  else (64 * 1024, .block64k)

/-- How far a round gets. -/
def eraseStep (addr eraseSize : UInt32) : UInt32 :=
  if addr &&& (eraseSize - 1) ≠ 0 then eraseSize - (addr &&& (eraseSize - 1)) else eraseSize

/-- The loop of `spi_flash_erase`, which sets `size` to what each round has got through; `none`
where the rounds run out. -/
def Eraser.eraseFrom : Nat → Eraser → (addr : UInt32) → (leftSize : Int) → (size : UInt32) →
    Option Eraser
  | 0, c, _, leftSize, _ => if leftSize > 0 then none else some c
  | fuel + 1, c, addr, leftSize, size =>
    if leftSize > 0 then
      let (eraseSize, mode) := eraseMode leftSize size
      let c := c.spiFlashEarse addr mode
      let size := eraseStep addr eraseSize
      eraseFrom fuel c (addr + size) (leftSize - size.toNat) size
    else some c

/-- Each round gets at least a byte further. -/
def Eraser.spiFlashErase (c : Eraser) (addr size : UInt32) : Option Eraser :=
  c.eraseFrom size.toNat addr size.toInt32.toInt size

end Driver

section Law

/-- The 4 KB sector of a byte has a byte of the range in it. -/
def Touched (addr size k : Nat) : Prop :=
  ∃ j, addr ≤ j ∧ j < addr + size ∧ j / 4096 = k / 4096

/-- `spi_flash_erase` ends, and erases the range and the sectors of the range at most. -/
def EraseRight (c : Chip) (addr size : UInt32) : Prop :=
  ∃ c', (Eraser.mk c []).spiFlashErase addr size = some c' ∧
    (∀ k, addr.toNat ≤ k → k < addr.toNat + size.toNat → (∃ b ∈ c'.blocks, b.Has k) ∧
      c'.chip.cells k = 0xff) ∧
    ∀ b ∈ c'.blocks, ∀ k, b.Has k → Touched addr.toNat size.toNat k

/-- The blocks that the size asks for end where sectors of the range do. -/
def BlocksFit (addr size : Nat) : Prop :=
  size ≤ 4096 ∨
    (size ≤ 32768 ∧ addr % 32768 < 4096 ∧ 28672 < addr % 32768 + size) ∨
    (32768 < size ∧ addr % 65536 < 4096 ∧
      ((addr % 65536 + size) % 65536 ≤ 4096 ∨ 61440 < (addr % 65536 + size) % 65536))

end Law

end BdkRtt.Flash.SpiFlash
