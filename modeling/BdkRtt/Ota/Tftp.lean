import BdkRtt.Lib.Bytes
import BdkRtt.Lib.Machine
import Mathlib.Algebra.Group.Nat.Defs

namespace BdkRtt.Ota

open Lib

section Wire

/-- `SEND_PTK_HD`, the 24 bytes in front of the payload of a block. -/
structure SendPtkHd where
  totalLen : UInt32
  seq : UInt16
  totalSeq : UInt16
  os0ExAddr : UInt32
  osHdAddr : UInt32
  os0FlashAddr : UInt32
  os1FlashAddr : UInt32

def sendPtkHd (src : List UInt8) : SendPtkHd where
  totalLen := ofLe32 src
  seq := ofLe16 (src.drop 4)
  totalSeq := ofLe16 (src.drop 6)
  os0ExAddr := ofLe32 (src.drop 8)
  osHdAddr := ofLe32 (src.drop 12)
  os0FlashAddr := ofLe32 (src.drop 16)
  os1FlashAddr := ofLe32 (src.drop 20)

/-- `IMG_HEAD`. -/
structure ImgHead where
  bkupAddr : UInt32
  bkupLen : UInt32
  exAddr : UInt32
  osAddr : UInt32
  hdAddr : UInt32
  crc : UInt32
  status : UInt32
  bk : UInt32

def tftpData : UInt16 := 3
def tftpOack : UInt16 := 6

/-- The states that the handler sets, and the one of `TftpStart`. -/
inductive TftpState
  | rrq | data | oack
  deriving DecidableEq

/-- `strtoul` to base 10: blanks, a sign, digits up to the first other byte. -/
def osStrtoul (nptr : List UInt8) : UInt32 :=
  let body := nptr.dropWhile fun b => b = 0x20 ∨ (0x09 ≤ b ∧ b ≤ 0x0d)
  let digits := if body.head? = some 0x2d ∨ body.head? = some 0x2b then body.tail else body
  let n := (digits.takeWhile fun b => 0x30 ≤ b ∧ b ≤ 0x39).foldl
    (fun n b => n * 10 + (b.toNat - 0x30)) 0
  let value := UInt32.ofNat (min n (2 ^ 32 - 1))
  if body.head? = some 0x2d ∧ n < 2 ^ 32 then 0 - value else value

/-- `"blksize"`, with its terminator. -/
def blksize : List UInt8 := [0x62, 0x6c, 0x6b, 0x73, 0x69, 0x7a, 0x65, 0]

/-- The loop over an OACK that looks for the option, from `i` on. -/
def oackBlkSize (blkSize : UInt16) : Nat → List UInt8 → UInt16
  | 0, _ => blkSize
  | rounds + 1, pkt =>
    if pkt.take 8 = blksize then (osStrtoul (pkt.drop 8)).toUInt16
    else oackBlkSize blkSize rounds (pkt.drop 1)

end Wire

/-- What the client does: it sends an ACK, hands a block to `store_block`, and asks the flash
driver for an erase, for the write of a payload, and for the write of `img_hd`. -/
inductive TftpOut
  | ack (block : UInt16)
  | store (block : UInt32) (src : List UInt8)
  | erase (param : UInt32)
  | write (userBuf : List UInt8) (count address : UInt32)
  | header (img : ImgHead) (address : UInt32)

/-- The variables of `tftpclient.c`.  `send_hd_bk` is not among them: its old content is only
compared for a message. -/
structure TftpClient where
  tftpState : TftpState
  serverPort : UInt16
  block : UInt64
  lastBlock : UInt64
  blkSize : UInt16
  osDataAddr : UInt32
  tftpCrc : UInt32
  imgHd : ImgHead
  uninit : Bool

/-- `TftpStart`. -/
def tftpStart (c : TftpClient) : TftpClient :=
  { c with
    tftpCrc := 0
    serverPort := 69
    tftpState := .rrq
    block := 0
    blkSize := 512
    uninit := false }

section Handler

-- `co_crc32`: the bytes, and the value to go on from.
variable (coCrc32 : List UInt8 → UInt32 → UInt32)

/-- The branch of `store_block` on `block`.  In both a sequence number that is not the block's, or
not the next one, only gives a message. -/
def startBlock (c : TftpClient) (block : UInt32) (sendHd : SendPtkHd) : TftpClient :=
  if block ≠ 0 then c else { c with osDataAddr := sendHd.os1FlashAddr, tftpCrc := 0 }

/-- `store_block`.  `src` is the buffer from there on, of which `len` bytes came in. -/
def storeBlock (c : TftpClient) (block : UInt32) (src : List UInt8) (len : UInt32) :
    TftpClient × List TftpOut :=
  let sendHd := sendPtkHd src
  let c := startBlock c block sendHd
  let erased := if c.osDataAddr % 0x1000 = 0 then [.erase c.osDataAddr] else []
  if c.osDataAddr ≥ 0x200000 ∨ c.osDataAddr < 0x27000 then
    (c, .store block (src.take len.toNat) :: erased)
  else
    let count := len - 24
    let outs := .store block (src.take len.toNat) :: erased ++
      [.write ((src.drop 24).take count.toNat) count c.osDataAddr]
    let next := c.osDataAddr + count
    if sendHd.seq ≠ sendHd.totalSeq then
      ({ c with tftpCrc := coCrc32 (src.take len.toNat) c.tftpCrc, osDataAddr := next }, outs)
    else
      let orCrc := ofLe32 (src.drop (len - 4).toNat)
      let crc := coCrc32 (src.take (len - 4).toNat) c.tftpCrc
      if crc = orCrc then
        let img := { c.imgHd with
          bkupAddr := sendHd.os1FlashAddr
          bkupLen := sendHd.totalLen
          crc := orCrc
          exAddr := sendHd.os0ExAddr
          osAddr := sendHd.os0FlashAddr
          hdAddr := sendHd.osHdAddr
          status := 1 }
        ({ c with tftpCrc := crc, osDataAddr := next, imgHd := img },
          outs ++ [.erase sendHd.osHdAddr, .header img sendHd.osHdAddr])
      else ({ c with tftpCrc := crc, osDataAddr := next }, outs)

/-- A datagram in `tftp_buf`; behind its bytes stands what was there before. -/
structure Datagram where
  buf : List UInt8
  len : UInt32
  port : UInt16
  fits : len.toNat ≤ buf.length

def Datagram.proto (d : Datagram) : UInt16 := ofBe16 d.buf

def Datagram.block (d : Datagram) : UInt16 := ofBe16 (d.buf.drop 2)

/-- The case `TFTP_DATA` of `TftpHandler`. -/
def handleData (c : TftpClient) (d : Datagram) : TftpClient × List TftpOut :=
  if d.len - 2 < 2 then (c, [])
  else
    let len := d.len - 2 - 2
    let first := c.tftpState = .rrq ∨ c.tftpState = .oack
    let c := { c with block := d.block.toUInt64 }
    let c :=
      if first then { c with tftpState := .data, serverPort := d.port, lastBlock := 0 } else c
    if first ∧ c.block ≠ 1 then (c, [])
    else if c.block = c.lastBlock then (c, [.ack c.block.toUInt16])
    else
      let c := { c with lastBlock := c.block }
      let r := storeBlock coCrc32 c (c.block - 1).toUInt32 (d.buf.drop 4) len
      ({ r.1 with uninit := decide (len < r.1.blkSize.toUInt32) },
        r.2 ++ [.ack r.1.block.toUInt16])

/-- `TftpHandler`; `Tftp_Uninit` ends the thread that calls it. -/
def tftpHandler (c : TftpClient) (d : Datagram) : TftpClient × List TftpOut :=
  if c.tftpState ≠ .rrq ∧ d.port ≠ c.serverPort then (c, [])
  else if d.len < 2 then (c, [])
  else if d.proto = tftpOack then
    ({ c with
        tftpState := .oack
        serverPort := d.port
        blkSize := oackBlkSize c.blkSize ((d.len - 2).toNat - 8) (d.buf.drop 2) },
      [.ack c.block.toUInt16])
  else if d.proto = tftpData then handleData coCrc32 c d
  else (c, [])

end Handler

end BdkRtt.Ota
