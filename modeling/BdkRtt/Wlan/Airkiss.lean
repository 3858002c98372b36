import BdkRtt.Lib.Bytes
import BdkRtt.Lib.Machine
import BdkRtt.Lib.Mem

/-! The channels and the transmitters of the airkiss scan. -/

namespace BdkRtt.Wlan.Airkiss

open Lib

def maxChannels : Nat := 14
def maxMac : Nat := 50
def airkissSwitchTimer : UInt32 := 50
def minSelChanTimer : UInt32 := 1000
def maxSelChanTimer : UInt32 := 5000
def airkissMinRxBufSize : Nat := 24
def minValidDatacntInchan : UInt8 := 4
def minValidBcncntInchan : UInt8 := 1

def airkissScanAllChan : UInt8 := 0
def airkissScanSelectedChan : UInt8 := 1

section Data

/-- `chan_param_t` -/
structure ChanParam where
  bcnCnt : UInt8
  dataCnt : UInt8
  channel : UInt16
deriving DecidableEq

/-- `mac_param_t`, of which only these fields are used. -/
structure MacParam where
  macCrc : UInt8
  channel : UInt16
deriving DecidableEq

/-- `airkiss_channel_t` -/
structure Channels where
  chan : List ChanParam
  curChanIdx : UInt8
  allChanNums : UInt8
  selectedChanNums : UInt8
  mode : UInt8

/-- `airkiss_mac_t`; `mac` goes on behind the table. -/
structure Macs where
  mac : Mem MacParam
  macCnt : UInt8

/-- `g_chans` and `g_macs` -/
structure Globals where
  chans : Channels
  macs : Macs

/-- `mac_ie_find` of the IP library: where the first element of an identifier starts. -/
abbrev MacIeFind := List UInt8 → UInt8 → Option Nat

end Data

section Frame

def macFctrlTypeMask : UInt16 := 0x000c
def macFctrlTypesubtypeMask : UInt16 := 0x00fc
def macFctrlBeacon : UInt16 := 0x0080
def macFctrlProbersp : UInt16 := 0x0050
def macFctrlDataT : UInt16 := 0x0008
def macEltidDs : UInt8 := 3
def macDsChannelOft : Nat := 2
def macBeaconVariablePartOft : Nat := 24 + 12

/-- `addr2` of `struct mac_hdr` -/
def addr2Oft : Nat := 10

/-- A round of the loop, with `abyte` and `crc_1byte`. -/
def crcRound (x : UInt8 × UInt8) : UInt8 × UInt8 :=
  (x.1 >>> 1, if (x.2 ^^^ x.1) &&& 0x01 ≠ 0 then ((x.2 ^^^ 0x18) >>> 1) ||| 0x80 else x.2 >>> 1)

def calcrc1byte (abyte : UInt8) : UInt8 :=
  ((List.range 8).foldl (fun x _ => crcRound x) (abyte, 0)).2

def calcrcBytes (p : List UInt8) : UInt8 := p.foldl (fun crc b => calcrc1byte (crc ^^^ b)) 0

variable (frame : Mem UInt8)

def fctl : UInt16 := ofLe16 (frame.read 0 2)

def macCrc : UInt8 := calcrcBytes (frame.read addr2Oft 6)

def isBeacon : Prop :=
  fctl frame &&& macFctrlTypesubtypeMask = macFctrlBeacon ∨
    fctl frame &&& macFctrlTypesubtypeMask = macFctrlProbersp

def isData : Prop := fctl frame &&& macFctrlTypeMask = macFctrlDataT

instance : Decidable (isBeacon frame) := inferInstanceAs (Decidable (_ ∨ _))
instance : Decidable (isData frame) := inferInstanceAs (Decidable (_ = _))

/-- `var_part_len`, which wraps for a frame that is too short and is passed on with 16 bits. -/
def varPartLen (size : Nat) : UInt16 :=
  (UInt32.ofNat size - UInt32.ofNat macBeaconVariablePartOft).toUInt16

/-- The channel of the DS element, 0 where there is none. -/
def dsChannel (macIeFind : MacIeFind) (size : Nat) : UInt16 :=
  match macIeFind (frame.read macBeaconVariablePartOft (varPartLen size).toNat) macEltidDs with
  | some elmt => (frame (macBeaconVariablePartOft + elmt + macDsChannelOft)).toUInt16
  | none => 0

end Frame

section Count

/-- The loop over the table from `i` on: the first entry with the checksum. -/
def Macs.find (m : Macs) (crc : UInt8) : Nat → Nat → Nat
  | 0, i => i
  | left + 1, i => if crc = (m.mac i).macCrc then i else find m crc left (i + 1)

/-- The entry after it is written; the second result are the entries that were written. -/
def Macs.note (m : Macs) (crc : UInt8) (channel : UInt16) : Macs × List Nat :=
  let i := m.find crc m.macCnt.toNat 0
  if i = m.macCnt.toNat then
    let x := (m.mac i)
    ({ mac := m.mac.write i [{ macCrc := crc, channel := if channel ≠ 0 then channel else x.channel }]
       macCnt := m.macCnt + 1 }, [i])
  else if channel ≠ 0 then
    ({ m with mac := m.mac.write i [{ m.mac i with channel }] }, [i])
  else (m, [])

/-- `cur_chan` with a counter one higher; `none` where it lies outside of the array. -/
def Channels.count (g : Channels) (f : ChanParam → ChanParam) : Option Channels :=
  (g.chan[g.curChanIdx.toNat]?).map fun c => { g with chan := g.chan.set g.curChanIdx.toNat (f c) }

/-- `airkiss_count_usefull_packet`, with the entries of `g_macs` that it writes. -/
def airkissCountUsefullPacket (macIeFind : MacIeFind) (g : Globals) (frame : Mem UInt8)
    (size : Nat) : Option (Globals × List Nat) :=
  if size = 0 then some (g, [])
  else if isBeacon frame then
    (g.chans.count fun c => { c with bcnCnt := c.bcnCnt + 1 }).map fun chans =>
      let r := g.macs.note (macCrc frame) (dsChannel frame macIeFind size)
      ({ chans, macs := r.1 }, r.2)
  else if isData frame then
    (g.chans.count fun c => { c with dataCnt := c.dataCnt + 1 }).map fun chans =>
      ({ g with chans }, [])
  else some (g, [])

/-- `airkiss_monitor_callback`, without the copy for the other thread. -/
def airkissMonitorCallback (macIeFind : MacIeFind) (g : Globals) (data : Mem UInt8) (len : Nat) :
    Option (Globals × List Nat) :=
  if len < airkissMinRxBufSize then some (g, []) else airkissCountUsefullPacket macIeFind g data len

end Count

section Channels

/-- `os_memset(&g_macs, 0, sizeof(airkiss_mac_t))` -/
def Macs.clear (m : Macs) : Macs where
  mac := m.mac.write 0 (List.replicate maxMac ⟨0, 0⟩)
  macCnt := 0

def scanAllChannels : Channels where
  chan := (List.range (maxChannels - 1)).map (fun i => ⟨0, 0, UInt16.ofNat (i + 1)⟩) ++ [⟨0, 0, 0⟩]
  curChanIdx := 0
  allChanNums := UInt8.ofNat (maxChannels - 1)
  selectedChanNums := 0
  mode := airkissScanAllChan

def airkissSetScanAllChannel (g : Globals) : Globals where
  chans := scanAllChannels
  macs := g.macs.clear

def airkissCalcTimeForSelectedChannel (validCnt : UInt8) : UInt32 :=
  let timerCnt := (validCnt / minValidDatacntInchan).toUInt32 * minSelChanTimer
  if timerCnt < minSelChanTimer then minSelChanTimer
  else if timerCnt > maxSelChanTimer then maxSelChanTimer
  else timerCnt

/-- The entries from `i` on, up to the last selected one, go one place further. -/
def Channels.moveUp (g : Channels) (i : Nat) : Option Channels :=
  let moveCnt := (g.selectedChanNums - UInt8.ofNat i).toNat
  if i + 1 + moveCnt ≤ maxChannels then
    some { g with
      chan := splice g.chan (i + 1) ((g.chan.drop i).take moveCnt)
      selectedChanNums := g.selectedChanNums + 1 }
  else none

def Channels.put (g : Channels) (i : Nat) (channel dataCnt : UInt8) : Option Channels :=
  (g.chan[i]?).map fun c =>
    { g with chan := g.chan.set i { c with channel := channel.toUInt16, dataCnt } }

/-- The loop of `airkiss_add_channel` with `left` entries to come, and what follows it. -/
def Channels.addFrom (g : Channels) (channel dataCnt : UInt8) : Nat → Nat → Option Channels
  | 0, i => { g with selectedChanNums := g.selectedChanNums + 1 }.put i channel dataCnt
  | left + 1, i => (g.chan[i]?).bind fun c =>
    if c.dataCnt < dataCnt then
      if c.channel.toUInt8 ≠ channel then (g.moveUp i).bind fun g => g.put i channel dataCnt
      else g.put i channel dataCnt
    else g.addFrom channel dataCnt left (i + 1)

def airkissAddChannel (g : Channels) (channel bcnCnt dataCnt : UInt8) : Option Channels :=
  if dataCnt < minValidDatacntInchan then some g
  else if bcnCnt < minValidBcncntInchan then some g
  else g.addFrom channel dataCnt g.selectedChanNums.toNat 0

/-- What is set at the end of `airkiss_switch_channel_callback`: the channel, and the timer. -/
structure Switch where
  channel : UInt8
  timerCnt : UInt32
deriving DecidableEq

/-- The end of `airkiss_switch_channel_callback`. -/
def Globals.switch (g : Globals) (timerCnt : UInt32) : Option (Globals × Option Switch) :=
  (g.chans.chan[g.chans.curChanIdx.toNat]?).map fun c => (g, some ⟨c.channel.toUInt8, timerCnt⟩)

/-- `AIRKISS_SCAN_ALL_CHAN`, after the channel has been added. -/
def Globals.nextOfAll (g : Globals) : Option (Globals × Option Switch) :=
  let idx := g.chans.curChanIdx + 1
  if idx ≥ g.chans.allChanNums then
    if g.chans.selectedChanNums ≠ 0 then
      (g.chans.chan[0]?).bind fun c =>
        { g with chans := { g.chans with curChanIdx := 0, mode := airkissScanSelectedChan } }.switch
          (airkissCalcTimeForSelectedChannel c.dataCnt)
    else (airkissSetScanAllChannel g).switch airkissSwitchTimer
  else { g with chans := { g.chans with curChanIdx := idx } }.switch airkissSwitchTimer

/-- `AIRKISS_SCAN_SELECTED_CHAN` -/
def Globals.nextOfSelected (g : Globals) : Option (Globals × Option Switch) :=
  let idx := g.chans.curChanIdx + 1
  (g.chans.chan[idx.toNat]?).bind fun c =>
    if idx ≥ g.chans.selectedChanNums then (airkissSetScanAllChannel g).switch airkissSwitchTimer
    else { g with chans := { g.chans with curChanIdx := idx } }.switch
      (airkissCalcTimeForSelectedChannel c.dataCnt)

/-- `airkiss_switch_channel_callback`; `none` where an index lies outside of the array. -/
def airkissSwitchChannelCallback (g : Globals) : Option (Globals × Option Switch) :=
  (g.chans.chan[g.chans.curChanIdx.toNat]?).bind fun curChan =>
    if g.chans.mode = airkissScanAllChan then
      (airkissAddChannel g.chans curChan.channel.toUInt8 curChan.bcnCnt curChan.dataCnt).bind
        fun chans => { g with chans }.nextOfAll
    else if g.chans.mode = airkissScanSelectedChan then g.nextOfSelected
    else some ({ g with chans := { g.chans with mode := airkissScanAllChan } }, none)

end Channels

end BdkRtt.Wlan.Airkiss
