import BdkRtt.Ota.HttpClient
import BdkRtt.Flash.Driver

namespace BdkRtt.Ota.ExternFlash

open Lib Flash

inductive ProtectType
  | flashProtectNone
  | flashProtectAll
  | flashProtectHalf
  | flashUnprotectLastBlock
  deriving DecidableEq

def rblHeaderLen : UInt32 := 96

def flashRblHeaderAddr : UInt32 := 0x001FD000

/-- What the function finds around it, with the `offset` of the download partition in its own
flash. -/
structure Env (σ : Type) extends HttpClient.Env σ where
  offset : UInt32
  /-- `spi_flash_partition_init` -/
  partitionInit : Int
  /-- What the erase and the write of the internal flash leave in their sector if they fail. -/
  eraseFails : Option (Mem UInt8)
  writeFails : Option (Mem UInt8)

/-- How the function ends. -/
structure Outcome where
  reset : Bool
  flash : HttpClient.Flash
  received : List UInt8
  chip : Chip
  protect : ProtectType

/-- What follows `__exit`. -/
def leave (needReboot : Bool) (f : HttpClient.Flash) (received : List UInt8) (chip : Chip) :
    Outcome :=
  ⟨needReboot, f, received, chip, .flashUnprotectLastBlock⟩

def spoil (fails : Option (Mem UInt8)) (chip : Chip) : Chip :=
  match fails with
  | none => chip
  | some junk =>
    { chip with
      cells := fun k =>
        if k / 4096 = flashRblHeaderAddr.toNat / 4096 then junk k else chip.cells k }

variable {σ : Type}

/-- The header goes to the internal flash, and is compared with what is there afterwards. -/
def copyHeader (env : Env σ) (chip : Chip) (header : List UInt8) : Chip × Bool :=
  let chip := spoil env.eraseFails (flashEraseSector chip flashRblHeaderAddr)
  let chip := spoil env.writeFails (flashWrite chip header rblHeaderLen flashRblHeaderAddr)
  let r := flashRead chip rblHeaderLen flashRblHeaderAddr
  (r.1, decide (header = r.2))

/-- What follows the loop.  `fal_partition_read` takes an address relative to the partition and is
given the offset of the partition. -/
def finish (env : Env σ) (part : HttpClient.FalPartition) (chip : Chip)
    (r : HttpClient.Download σ × Bool) : Outcome :=
  let d := r.1
  if r.2 = false ∨ env.rtOtaPartFwVerify d.flash < 0 then leave false d.flash d.received chip
  else
    match HttpClient.falPartitionRead part d.flash env.offset rblHeaderLen with
    | (f, none) => leave false f d.received chip
    | (f, some header) =>
      let c := copyHeader env chip header
      leave c.2 f d.received c.1

/-- `http_ota_extern_flash_download` up to the reset; its loop is that of `http_ota_fw_download`
but for the protection, which it leaves alone. -/
def httpOtaExternFlashDownload (env : Env σ) (fuel : Nat) (f : HttpClient.Flash) (chip : Chip) :
    Option Outcome :=
  let exit := some (leave false f [] chip)
  match env.session with
  | none => exit
  | some s =>
    if env.respStatus ≠ 200 ∨ env.contentLength = 0 then exit
    else
      match env.dlPart with
      | none => exit
      | some part =>
        if env.contentLength.toUInt32 > part.len ∨ !env.bufferRead ∨ !env.bufferSwap ∨
            env.partitionInit ≠ 0 then exit
        else
          (HttpClient.downloadLoop env.toEnv part fuel ⟨s, f, 0, []⟩).map (finish env part chip)

end BdkRtt.Ota.ExternFlash
