import BdkRtt.Lib.Bytes
import BdkRtt.Lib.Mem

namespace BdkRtt.Wlan

open Lib

abbrev EtherAddr := Vector UInt8 6

abbrev Oui := Vector UInt8 3

def isMulticastEtherAddr (a : EtherAddr) : Bool := a[0] &&& 0x01 != 0

section Header

/-- `struct mac_hdr`, 24 bytes without padding. -/
structure MacHdr where
  fctl : UInt16
  durid : UInt16
  addr1 : EtherAddr
  addr2 : EtherAddr
  addr3 : EtherAddr
  seq : UInt16

def MacHdr.bytes (hdr : MacHdr) : List UInt8 :=
  le16 hdr.fctl ++ le16 hdr.durid ++ hdr.addr1.toList ++ hdr.addr2.toList ++ hdr.addr3.toList ++
    le16 hdr.seq

/-- The `n` bytes at a pointer, as an array. -/
def vectorAt (n : Nat) (m : Mem UInt8) (p : Nat) : Vector UInt8 n := Vector.ofFn fun k => m (p + k)

def macHdrAt (m : Mem UInt8) (p : Nat) : MacHdr where
  fctl := ofLe16 (m.read p 2)
  durid := ofLe16 (m.read (p + 2) 2)
  addr1 := vectorAt 6 m (p + 4)
  addr2 := vectorAt 6 m (p + 10)
  addr3 := vectorAt 6 m (p + 16)
  seq := ofLe16 (m.read (p + 22) 2)

def sizeofMacHdr : Nat := 24

def macFctrlTypesubtypeMask : UInt16 := 0x000C ||| 0x00F0

def macFctrlAction : UInt16 := 0x0000 ||| 0x00D0

def wlanActionVendorSpecific : UInt8 := 127

def wlanEidVendorSpecific : UInt8 := 221

end Header

/-- `struct bk_aware_env_tag`: the addresses of the peers in list order, and whether a receive
callback is registered. -/
structure BkAwareEnv where
  list : List EtherAddr
  localAddr : EtherAddr
  oui : Oui
  inited : Bool
  recvCb : Bool

def bkAwareMaxDataLen : Nat := 250

def bkAwareIsPeerExist (env : BkAwareEnv) (peerAddr : EtherAddr) : Bool :=
  env.list.any fun peer => peer == peerAddr

/-- One call of `recv_cb`. -/
structure RecvCall where
  macAddr : EtherAddr
  data : List UInt8
  dataLen : Int
  deriving DecidableEq

/-- The callback part of `bk_aware_monitor_cb`, with `p` behind the version byte. -/
def bkAwareDeliver (env : BkAwareEnv) (hdr : MacHdr) (data : Mem UInt8) (p : Nat)
    (userLen : UInt8) : List RecvCall :=
  if env.recvCb then
    if (bkAwareIsPeerExist env hdr.addr2 && hdr.addr1 == env.localAddr) ||
        isMulticastEtherAddr hdr.addr3 then
      [{ macAddr := hdr.addr2
         data := data.read p (userLen.toNat - 5)
         dataLen := (userLen.toNat : Int) - 5 }]
    else []
  else []

/-- `bk_aware_monitor_cb` on the frame at `data`: the calls of `recv_cb` it makes. -/
def bkAwareMonitorCb (env : BkAwareEnv) (data : Mem UInt8) : List RecvCall :=
  let hdr := macHdrAt data 0
  if !env.inited then []
  else if hdr.fctl &&& macFctrlTypesubtypeMask = macFctrlAction then
    let p := sizeofMacHdr
    let category := data p
    let p := p + 1
    if category ≠ wlanActionVendorSpecific then []
    else if vectorAt 3 data p ≠ env.oui then []
    else
      let p := p + 3
      let p := p + 4 -- the random value
      if data p ≠ wlanEidVendorSpecific then []
      else
        let p := p + 1
        let userLen := data p
        let p := p + 1
        if vectorAt 3 data p ≠ env.oui then []
        else
          let p := p + 3
          if data p ≠ 4 then []
          else
            let p := p + 1
            let p := p + 1 -- the version
            bkAwareDeliver env hdr data p userLen
  else []

section Send

/-- `bk_aware_construct_frame`.  `frame` is what `os_malloc` returns and `randomValue` what
`bk_rand` does; the second component of the result is the value left in `*len`. -/
def bkAwareConstructFrame (env : BkAwareEnv) (frame : Option (Mem UInt8)) (randomValue : UInt32)
    (peerAddr : EtherAddr) (data : List UInt8) : Option (Mem UInt8 × Nat) :=
  match frame with
  | none => none
  | some frame =>
    let hdr : MacHdr :=
      { fctl := macFctrlAction
        durid := 0
        addr1 := peerAddr
        addr2 := env.localAddr
        addr3 := if isMulticastEtherAddr peerAddr then peerAddr else env.localAddr
        seq := 0 }
    let c : Mem.Cursor UInt8 := ⟨frame.write 0 hdr.bytes, sizeofMacHdr⟩
    let c := c.put [wlanActionVendorSpecific]
    let c := c.put env.oui.toList
    let c := c.put (le32 randomValue)
    let c := c.put [wlanEidVendorSpecific]
    let c := c.put [UInt8.ofNat (3 + 1 + 1 + data.length)]
    let c := c.put env.oui.toList
    let c := c.put [4]
    let c := c.put [1]
    let c := c.put data
    some (c.mem, c.pos)

inductive BkAwareErr
  | ok
  | notInit
  | arg
  | noMem
  | notFound
  | internal
  deriving DecidableEq

/-- `bk_aware_send` with the frames it passes to `bk_wlan_send_raw_frame_with_cb`. -/
def bkAwareSend (env : BkAwareEnv) (frame : Option (Mem UInt8)) (randomValue : UInt32)
    (peerAddr : Option EtherAddr) (data : Option (List UInt8)) : BkAwareErr × List (List UInt8) :=
  if !env.inited then (.notInit, [])
  else match data with
  | none => (.arg, [])
  | some data =>
    if data.length > bkAwareMaxDataLen then (.arg, [])
    else match peerAddr with
    | none => (.internal, [])
    | some peerAddr =>
      if bkAwareIsPeerExist env peerAddr then
        match bkAwareConstructFrame env frame randomValue peerAddr data with
        | none => (.noMem, [])
        | some (frame, len) => (.ok, [frame.read 0 len])
      else (.notFound, [])

end Send

end BdkRtt.Wlan
