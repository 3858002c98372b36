import BdkRtt.Lib.Mem

namespace BdkRtt.Flash

open Lib

/-- A NOR flash takes bits from one to zero only. -/
def program (m : Mem UInt8) (i : Nat) (xs : List UInt8) : Mem UInt8 := fun k =>
  if k < i then m k else m k &&& xs.getD (k - i) 0xff

/-- The controller and the chip behind it: `flash_current_config->flash_size`, the cells, the
last word written to `REG_FLASH_OPERATE_SW`, and what `REG_FLASH_DATA_FLASH_SW` gives. -/
structure Chip where
  flashSize : UInt32
  cells : Mem UInt8
  operateSw : UInt32
  dataFlashSw : List UInt8

/-- The `flash_size` column of `flash_config`; `flash_current_config` is one of its rows. -/
def flashConfigSizes : List UInt32 :=
  [0x400000, 0x200000, 0x100000, 0x200000, 0x400000, 0x800000, 0x400000, 0x200000, 0x400000,
    0x400000, 0x400000, 0x200000, 0x200000, 0x400000]

def flashOpcodeRead : UInt32 := 5
def flashOpcodePp : UInt32 := 12
def flashOpcodeSe : UInt32 := 13

def opSw : UInt32 := 0x20000000
def wpValue : UInt32 := 0x40000000

/-- The word that starts an operation: `ADDR_SW_REG_POSI` is 0, `OP_TYPE_SW_POSI` is 24. -/
def operateWord (addr op regValue : UInt32) : UInt32 :=
  addr ||| (op <<< 24) ||| opSw ||| (regValue &&& wpValue)

def addrSw (word : UInt32) : UInt32 := word &&& 0x00ffffff
def opTypeSw (word : UInt32) : UInt32 := (word >>> 24) &&& 0x1f

/-- What the controller does with the word, and with the 32 bytes given to it. -/
def Chip.operate (f : Chip) (word : UInt32) (data : List UInt8) : Chip :=
  let addr := (addrSw word).toNat
  if opTypeSw word = flashOpcodeRead then
    { f with operateSw := word, dataFlashSw := f.cells.read addr 32 }
  else if opTypeSw word = flashOpcodePp then
    { f with operateSw := word, cells := program f.cells addr data }
  else if opTypeSw word = flashOpcodeSe then
    { f with
      operateSw := word
      cells := fun k => if k / 4096 = addr / 4096 then 0xff else f.cells k }
  else { f with operateSw := word }

def lineAddr (address : UInt32) : UInt32 := address &&& ~~~(0x1f : UInt32)

/-- The bytes of the line that one round of a loop moves. -/
def lineCount (address len : UInt32) : Nat := min (32 - (address % 32).toNat) len.toNat

/-- The outer loop of `flash_read_data`.  A round moves at least one byte, so `len` rounds are
enough. -/
def readLines (f : Chip) : Nat → (addr address len : UInt32) → Chip × List UInt8
  | 0, _, _, _ => (f, [])
  | fuel + 1, addr, address, len =>
    if len = 0 then (f, [])
    else
      let f := f.operate (operateWord addr flashOpcodeRead f.operateSw) []
      let n := lineCount address len
      let rest := readLines f fuel (addr + 32) (address + UInt32.ofNat n) (len - UInt32.ofNat n)
      (rest.1, (f.dataFlashSw.drop (address % 32).toNat).take n ++ rest.2)

/-- `flash_read_data`, with the bytes it puts in `buffer`. -/
def flashReadData (f : Chip) (address len : UInt32) : Chip × List UInt8 :=
  readLines f len.toNat (lineAddr address) address len

/-- The outer loop of `flash_write_data`; `pb` is the line being put together. -/
def writeLines (f : Chip) : Nat → (pb buffer : List UInt8) → (addr address len : UInt32) → Chip
  | 0, _, _, _, _, _ => f
  | fuel + 1, pb, buffer, addr, address, len =>
    if len = 0 then f
    else
      let line := if len < 32 then flashReadData f addr 32 else (f, pb)
      let f := line.1
      let pos := (address % 32).toNat
      let n := lineCount address len
      let pb := line.2.take pos ++ buffer.take n ++ line.2.drop (pos + n)
      let f := f.operate (operateWord addr flashOpcodePp f.operateSw) pb
      writeLines f fuel (List.replicate 32 0xff) (buffer.drop n) (addr + 32)
        (address + UInt32.ofNat n) (len - UInt32.ofNat n)

/-- `flash_write_data`; `buffer` are the `len` bytes at the pointer. -/
def flashWriteData (f : Chip) (buffer : List UInt8) (address len : UInt32) : Chip :=
  let addr := lineAddr address
  if addr ≥ f.flashSize ∨ len > f.flashSize ∨ addr + len > f.flashSize then f
  else
    let line := if address % 32 ≠ 0 then flashReadData f addr 32 else (f, List.replicate 32 0xff)
    writeLines line.1 len.toNat line.2 buffer addr address len

def flashEraseSector (f : Chip) (address : UInt32) : Chip :=
  let eraseAddr := address &&& 0xfff000
  if eraseAddr ≥ f.flashSize then f
  else f.operate (operateWord eraseAddr flashOpcodeSe f.operateSw) []

/-- `flash_read` and `flash_write` add the busy count and, on a four-line chip, switch the
line mode around the transfer. -/
def flashRead (f : Chip) (count address : UInt32) : Chip × List UInt8 :=
  flashReadData f address count

def flashWrite (f : Chip) (userBuf : List UInt8) (count address : UInt32) : Chip :=
  flashWriteData f userBuf address count

end BdkRtt.Flash
