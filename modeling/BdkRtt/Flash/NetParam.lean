import BdkRtt.Flash.Partition
import BdkRtt.Lib.Tlv
import Mathlib.Algebra.Group.Nat.Defs

namespace BdkRtt.Flash

open Lib

section Items

def infoTlvHeader : UInt32 := 0x00564c54

def autoConnectItem : UInt32 := 0x11111111
def wifiModeItem : UInt32 := 0x22222222
def dhcpModeItem : UInt32 := 0x33333333
def wifiMacItem : UInt32 := 0x44444444
def ssidKeyItem : UInt32 := 0x55555555
def ipConfigItem : UInt32 := 0x66666666
def rfCfgTssiItem : UInt32 := 0x77777777
def rfCfgDistItem : UInt32 := 0x88888888
def rfCfgModeItem : UInt32 := 0x99999999
def chargeConfigItem : UInt32 := 0xaaaaaaaa
def rfCfgTssiBItem : UInt32 := 0xbbbbbbbb

/-- The cases that the switches over an item tell apart; `default` is every word that
`NET_INFO_ITEM` does not list. -/
inductive ItemCase
  | comm | macAddr | charge | ssidKey | ipConfig | default
  deriving DecidableEq

def itemCase (item : UInt32) : ItemCase :=
  if item = autoConnectItem ∨ item = wifiModeItem ∨ item = dhcpModeItem ∨ item = rfCfgTssiItem ∨
      item = rfCfgDistItem ∨ item = rfCfgModeItem ∨ item = rfCfgTssiBItem then .comm
  else if item = wifiMacItem then .macAddr
  else if item = chargeConfigItem then .charge
  else if item = ssidKeyItem then .ssidKey
  else if item = ipConfigItem then .ipConfig
  else .default

/-- `info_item_len`: the sizes of the `ITEM_*_ST`. -/
def infoItemLen (item : UInt32) : UInt32 :=
  match itemCase item with
  | .comm => 12
  | .macAddr => 16
  | .charge => 12
  | .ssidKey => 104
  | .ipConfig => 56
  | .default => 12

/-- `INFO_ITEM_ST`, and `TLV_HEADER_ST`. -/
structure InfoItemSt where
  type : UInt32
  len : UInt32

def infoItemSt (xs : List UInt8) : InfoItemSt := ⟨ofLe32 xs, ofLe32 (xs.drop 4)⟩

end Items

section Search

variable (soc7221u : Bool) (f : Chip)

/-- What `search_info_tbl` leaves and returns. -/
structure TblSearch where
  chip : Chip
  ret : UInt32
  cfgLen : UInt32
  buf : Option (List UInt8)

/-- `search_info_tbl`; `buf` is `none` for NULL, else the buffer. -/
def searchInfoTbl (buf : Option (List UInt8)) : TblSearch :=
  let start := (bkFlashGetInfo soc7221u .netParam).partitionStartAddr
  let r := flashRead f 8 start
  let head := infoItemSt r.2
  if infoTlvHeader = head.type then
    let cfgLen := head.len + 8
    match buf with
    | none => ⟨r.1, 1, cfgLen, none⟩
    | some buf =>
      let whole := flashRead r.1 cfgLen start
      ⟨whole.1, 1, cfgLen, some (splice buf 0 whole.2)⟩
  else ⟨r.1, 0, 0, buf⟩

/-- The loop of `search_info_item`.  After `2 ^ 32` rounds it has come back to an address it was
at, and never ends. -/
def searchItems (type endAddr : UInt32) : Nat → Chip → UInt32 → Option (Chip × UInt32)
  | 0, _, _ => none
  | fuel + 1, f, addr =>
    if addr < endAddr then
      let r := flashRead f 8 addr
      let head := infoItemSt r.2
      if type ≠ head.type then searchItems type endAddr fuel r.1 (addr + 8 + head.len)
      else some (r.1, addr)
    else some (f, addr)

/-- `search_info_item`, `none` when it does not return. -/
def searchInfoItem (type startAddr : UInt32) : Option (Chip × UInt32) :=
  let r := flashRead f 8 startAddr
  let head := infoItemSt r.2
  let endAddr := startAddr + 8 + head.len
  (searchItems type endAddr (2 ^ 32) r.1 (startAddr + 8)).map fun s =>
    (s.1, if s.2 ≥ endAddr then 0 else s.2)

end Search

/-- What `get_info_item` returns, and the bytes it puts at the three pointers. -/
structure Got where
  ret : UInt32
  out0 : List UInt8
  out1 : List UInt8
  out2 : List UInt8
  deriving DecidableEq

/-- The switch of `get_info_item`; a flag says that the pointer is not NULL. -/
def getValues (f : Chip) (item len addr : UInt32) (ptr0 ptr1 ptr2 : Bool) : Chip × Got :=
  match itemCase item with
  | .comm | .macAddr | .charge =>
    if ptr0 then
      let v := flashRead f len addr
      (v.1, ⟨1, v.2, [], []⟩)
    else (f, ⟨0, [], [], []⟩)
  | .ssidKey =>
    if ptr0 ∧ ptr1 then
      let ssid := flashRead f 32 addr
      let key := flashRead ssid.1 64 (addr + 32)
      (key.1, ⟨1, ssid.2, key.2, []⟩)
    else (f, ⟨0, [], [], []⟩)
  | .ipConfig =>
    if ptr0 ∧ ptr1 ∧ ptr2 then
      let ip := flashRead f 16 addr
      let mask := flashRead ip.1 16 (addr + 16)
      let gateway := flashRead mask.1 16 (addr + 16 + 16)
      (gateway.1, ⟨1, ip.2, mask.2, gateway.2⟩)
    else (f, ⟨0, [], [], []⟩)
  | .default => (f, ⟨0, [], [], []⟩)

/-- `get_info_item`, `none` when it does not return. -/
def getInfoItem (soc7221u : Bool) (f : Chip) (item : UInt32) (ptr0 ptr1 ptr2 : Bool) :
    Option (Chip × Got) :=
  let tbl := searchInfoTbl soc7221u f none
  if tbl.ret = 0 then some (tbl.chip, ⟨0, [], [], []⟩)
  else
    let start := (bkFlashGetInfo soc7221u .netParam).partitionStartAddr
    (searchInfoItem tbl.chip item start).map fun s : Chip × UInt32 =>
      if s.2 = 0 then (s.1, ⟨0, [], [], []⟩)
      else
        let r := flashRead s.1 8 s.2
        getValues r.1 item (infoItemSt r.2).len (s.2 + 8) ptr0 ptr1 ptr2

section Save

/-- A call of `save_info_item`: the memory at the three pointers, and whether `os_zalloc` finds
the room. -/
structure SaveCall where
  item : UInt32
  ptr0 : Mem UInt8
  ptr1 : Mem UInt8
  ptr2 : Mem UInt8
  zalloc : Bool

/-- The bytes that the copies of `save_info_item` put at `item_buf`, one behind the other. -/
def SaveCall.itemBuf (soc7221u : Bool) (c : SaveCall) : List UInt8 :=
  match itemCase c.item with
  | .comm => c.ptr0.read 0 4
  | .macAddr => c.ptr0.read 0 6
  | .ssidKey => c.ptr0.read 0 32 ++ c.ptr1.read 0 64
  | .ipConfig => c.ptr0.read 0 16 ++ c.ptr1.read 0 16 ++ c.ptr2.read 0 16
  | .charge => c.ptr0.read 0 (if soc7221u then 4 else 3)
  | .default => c.ptr0.read 0 4

variable (soc7221u : Bool) (f : Chip)

/-- Where `save_info_item` puts the item, and the size of the table with it. -/
structure SaveLayout where
  chip : Chip
  tbl : Bool
  addrOffset : UInt32
  cfgTblLen : UInt32

def saveLayout (item : UInt32) : Option SaveLayout :=
  let start := (bkFlashGetInfo soc7221u .netParam).partitionStartAddr
  let itemLen := infoItemLen item
  let tbl := searchInfoTbl soc7221u f none
  if tbl.ret = 0 then some ⟨tbl.chip, false, 8, 8 + itemLen⟩
  else
    (searchInfoItem tbl.chip item start).map fun s =>
      if s.2 = 0 then ⟨s.1, true, tbl.cfgLen, tbl.cfgLen + itemLen⟩
      else ⟨s.1, true, s.2 - start, tbl.cfgLen⟩

/-- `save_info_item`.  `bk_flash_enable_security` before and after the transfer changes the
chip's status register only. -/
@[irreducible] def saveInfoItem (c : SaveCall) : Option (Chip × UInt32) :=
  let itemLen := infoItemLen c.item
  (saveLayout soc7221u f c.item).map fun l =>
    if c.zalloc then
      let wrbuf := List.replicate l.cfgTblLen.toNat 0
      let tbl := if l.tbl then searchInfoTbl soc7221u l.chip (some wrbuf)
        else ⟨l.chip, 0, 0, some wrbuf⟩
      let headLen := if l.tbl then l.cfgTblLen - 8 else itemLen
      let o := l.addrOffset.toNat
      let buf := splice (tbl.buf.getD wrbuf) (o + 8) (c.itemBuf soc7221u)
      let buf := splice buf o (le32 c.item)
      let buf := splice buf (o + 4) (le32 (itemLen - 8))
      let buf := splice buf 0 (le32 infoTlvHeader ++ le32 headLen)
      let erased := bkFlashErase soc7221u tbl.chip .netParam 0 l.cfgTblLen
      ((bkFlashWrite soc7221u erased.1 .netParam 0 (some buf) l.cfgTblLen).1, 1)
    else (l.chip, 0)

end Save

end BdkRtt.Flash
