import BdkRtt.Lib.Bytes
import BdkRtt.Lib.Mem

namespace BdkRtt.Driver.SdioScan

open Lib

/-- `freq_2_4_G`, of `WIFI_2_4_G_CHANNEL_NUM` entries. -/
def freq24G : List UInt16 :=
  [2412, 2417, 2422, 2427, 2432, 2437, 2442, 2447, 2452, 2457, 2462, 2467, 2472, 2484]

def macSsidLen : Nat := 32
def scanSsidMax : Nat := 2
def scanChannelMax : Nat := 14 + 28

structure ScanChan where
  freq : UInt16
  band : UInt8
  flags : UInt8

structure MacSsid where
  length : UInt8
  array : Mem UInt8

/-- `struct scan_start_req`, with its two arrays as the code indexes them. -/
structure ScanStartReq where
  chan : Nat → ScanChan
  ssid : Nat → MacSsid
  bssid : List UInt8
  addIes : UInt32
  addIeLen : UInt16
  chanCnt : UInt8
  ssidCnt : UInt8

/-- The fresh request is zeroed. -/
def ScanStartReq.zero : ScanStartReq where
  chan _ := ⟨0, 0, 0⟩
  ssid _ := ⟨0, fun _ => 0⟩
  bssid := List.replicate 6 0
  addIes := 0
  addIeLen := 0
  chanCnt := 0
  ssidCnt := 0

/-- The bytes from `scmd_hdr_ptr` on, those behind the command included. -/
abbrev Cmd := Mem UInt8

def Cmd.size (cmd : Cmd) : UInt16 := ofLe16 (cmd.read 2 2)

/-- The offset of `tlvbuffer`. -/
def tlvbuffer : Nat := 8 + 1 + 6

def Cmd.ieType (cmd : Cmd) (mrvlIe : Nat) : UInt16 := ofLe16 (cmd.read mrvlIe 2)
def Cmd.ieLen (cmd : Cmd) (mrvlIe : Nat) : UInt16 := ofLe16 (cmd.read (mrvlIe + 2) 2)

def tlvTypeSsid : UInt16 := 0x0000
def tlvTypeChanlist : UInt16 := 0x0101

/-- What the loop does to memory: the TLVs it visits, the ranges it reads, the entries of the two
arrays that it writes, and how much it copies to an `array`. -/
structure Touches where
  visits : List Nat
  reads : List (Nat × Nat)
  ssids : List Nat
  chans : List Nat
  copies : List Nat

structure LoopSt where
  mrvlIe : Nat
  ieTotalLen : UInt32
  ssidId : UInt32
  channelId : UInt32
  req : ScanStartReq
  touches : Touches

def Cmd.start (cmd : Cmd) : LoopSt where
  mrvlIe := tlvbuffer
  ieTotalLen := cmd.size.toUInt32 - UInt32.ofNat tlvbuffer
  ssidId := 0
  channelId := 0
  req := .zero
  touches := ⟨[], [], [], [], []⟩

/-- `TLV_TYPE_SSID` -/
def Cmd.ssidRound (cmd : Cmd) (s : LoopSt) : LoopSt :=
  let len := cmd.ieLen s.mrvlIe
  let id := s.ssidId.toNat
  let ssid : MacSsid :=
    { length := len.toUInt8
      array := (s.req.ssid id).array.write 0 (cmd.read (s.mrvlIe + 4) len.toNat) }
  { s with
    ssidId := s.ssidId + 1
    req := { s.req with
      ssid := Function.update s.req.ssid id ssid
      ssidCnt := (s.ssidId + 1).toUInt8 }
    touches := { s.touches with
      reads := s.touches.reads ++ [(s.mrvlIe + 4, len.toNat)]
      ssids := s.touches.ssids ++ [id]
      copies := s.touches.copies ++ [len.toNat] } }

/-- `TLV_TYPE_CHANLIST`: all channels, whatever the list says. -/
def Cmd.chanlistRound (s : LoopSt) : LoopSt :=
  { s with
    channelId := s.channelId + UInt32.ofNat freq24G.length
    req := { s.req with
      chan := fun i => if i < freq24G.length then ⟨freq24G.getD i 0, 0, 0⟩ else s.req.chan i
      chanCnt := (s.channelId + UInt32.ofNat freq24G.length).toUInt8 }
    touches := { s.touches with chans := s.touches.chans ++ List.range freq24G.length } }

/-- The body of the loop.  The next place is counted from the start of `tlvbuffer`. -/
def Cmd.round (cmd : Cmd) (s : LoopSt) : LoopSt :=
  let s := { s with
    ieTotalLen := s.ieTotalLen - UInt32.ofNat ((cmd.ieLen s.mrvlIe).toNat + 4)
    touches := { s.touches with
      visits := s.touches.visits ++ [s.mrvlIe]
      reads := s.touches.reads ++ [(s.mrvlIe, 4)] } }
  let t :=
    if cmd.ieType s.mrvlIe = tlvTypeSsid then cmd.ssidRound s
    else if cmd.ieType s.mrvlIe = tlvTypeChanlist then Cmd.chanlistRound s
    else s
  { t with mrvlIe := tlvbuffer + (cmd.ieLen s.mrvlIe).toNat + 4 }

/-- `while(ie_total_len)` from `s` on; `none` when `fuel` rounds are not enough. -/
def Cmd.loop (cmd : Cmd) : Nat → LoopSt → Option LoopSt
  | 0, s => if s.ieTotalLen = 0 then some s else none
  | fuel + 1, s => if s.ieTotalLen = 0 then some s else cmd.loop fuel (cmd.round s)

/-- `cmd_conversion_802_11_scan` without `CFG_REAL_SDIO`: what it puts in the request after the
loop, which is not all that the loop has put there. -/
def Cmd.conversion (cmd : Cmd) (fuel : Nat) : Option ScanStartReq :=
  (cmd.loop fuel cmd.start).map fun s =>
    { s.req with
      bssid := List.replicate 6 0xff
      ssidCnt := 1
      ssid := Function.update s.req.ssid 0 { s.req.ssid 0 with length := 0 }
      addIes := 0
      addIeLen := 0 }

end BdkRtt.Driver.SdioScan
