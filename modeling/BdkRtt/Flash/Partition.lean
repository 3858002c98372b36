import BdkRtt.Flash.Driver
import Mathlib.Algebra.Group.Nat.Defs

namespace BdkRtt.Flash

open Lib

/-- `bk_partition_t` below `BK_PARTITION_MAX`. -/
inductive BkPartition
  | bootloader | application | ota | rfFirmware | netParam | usrConfig
  deriving DecidableEq

structure BkLogicPartition where
  partitionStartAddr : UInt32
  partitionLength : UInt32

/-- `bk7231_partitions`; one address depends on whether `CFG_SOC_NAME` is `SOC_BK7221U`, and
`BK_PARTITION_USR_CONFIG` has no initializer. -/
def bk7231Partitions (soc7221u : Bool) : BkPartition → BkLogicPartition
  | .bootloader => ⟨0x00000000, 0x0f000⟩
  | .application => ⟨0x11000, 0x143000⟩
  | .ota => ⟨0x132000, 0xae000⟩
  | .rfFirmware => ⟨0x1e0000, 0x1000⟩
  | .netParam => ⟨if soc7221u then 0x1ff000 else 0x1e1000, 0x1000⟩
  | .usrConfig => ⟨0, 0⟩

def bkFlashGetInfo (soc7221u : Bool) (inPartition : BkPartition) : BkLogicPartition :=
  bk7231Partitions soc7221u inPartition

inductive OsStatus
  | noErr | paramErr
  deriving DecidableEq

/-- The loop of `bk_flash_erase`, with the number of its rounds.  A sector number has 20
bits, so `2 ^ 20` rounds are enough. -/
def eraseSectors (startAddr : UInt32) : Nat → Chip → (i endSector : UInt32) → Chip × Nat
  | 0, f, _, _ => (f, 0)
  | fuel + 1, f, i, endSector =>
    if i ≤ endSector then
      let rest := eraseSectors startAddr fuel (flashEraseSector f (startAddr + (i <<< 12)))
        (i + 1) endSector
      (rest.1, rest.2 + 1)
    else (f, 0)

/-- What `bk_flash_erase` leaves and returns, and the rounds of its loop.  The flash device is
there from `flash_init` on, so `ddev_open` gives a handle, here and below. -/
def bkFlashErase (soc7221u : Bool) (f : Chip) (inPartition : BkPartition)
    (offSet size : UInt32) : Chip × OsStatus × Nat :=
  let partitionInfo := bkFlashGetInfo soc7221u inPartition
  let startSector := offSet >>> 12
  let endSector := (offSet + size - 1) >>> 12
  let r := eraseSectors partitionInfo.partitionStartAddr (2 ^ 20) f startSector endSector
  (r.1, .noErr, r.2)

/-- `bk_flash_write`; `inBuffer` is `none` for NULL, else the bytes at the pointer. -/
def bkFlashWrite (soc7221u : Bool) (f : Chip) (inPartition : BkPartition) (offSet : UInt32)
    (inBuffer : Option (List UInt8)) (inBufferLength : UInt32) : Chip × OsStatus :=
  match inBuffer with
  | none => (f, .paramErr)
  | some buffer =>
    let startAddr := (bkFlashGetInfo soc7221u inPartition).partitionStartAddr + offSet
    (flashWrite f buffer inBufferLength startAddr, .noErr)

end BdkRtt.Flash
