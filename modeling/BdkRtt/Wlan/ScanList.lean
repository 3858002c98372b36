import BdkRtt.Lib.Bytes
import BdkRtt.Lib.ExchangeSort
import BdkRtt.Lib.Machine
import BdkRtt.Lib.Reading
import Mathlib.Data.Int.Order.Basic

namespace BdkRtt.Wlan.ScanList

open Lib

section Data

/-- `struct sta_scan_res` with the elements that follow it. -/
structure StaScanRes where
  bssid : List UInt8
  ssid : List UInt8
  onChannel : Bool
  channel : UInt8
  beaconInt : UInt16
  caps : UInt16
  level : Int
  security : Int
  tsf : List UInt8
  ieLen : UInt32
  ies : List UInt8
  deriving DecidableEq

/-- `SCAN_IND_T`, with the memory from `payload` on, which holds `length` bytes of the frame. -/
structure ScanInd where
  length : UInt16
  centerFreq : UInt16
  rssi : Int8
  payload : Mem UInt8

/-- The part of `g_country_code.cfg` that a scan looks at; `manual` is a `policy` of
`WIFI_COUNTRY_POLICY_MANUAL`. -/
structure WifiCountry where
  manual : Bool
  schan : UInt8
  nchan : UInt8

/-- What the IP library makes of the elements of a frame: where the first of an identifier
starts, and the security type. -/
structure IpLib where
  macIeFind : List UInt8 → UInt8 → Option Nat
  getSecurityTypeFromIe : List UInt8 → UInt16 → Int

def maxBssList : Nat := 32
def ethAlen : Nat := 6

def macBeaconVariablePartOft : Nat := 24 + 12
def macEltidSsid : UInt8 := 0
def macEltidDs : UInt8 := 3
def macSsidLen : Nat := 32
def macSsidLenOft : Nat := 1
def macSsidSsidOft : Nat := 2
def macDsChannelOft : Nat := 2

/-- The fields of `IEEE802_11_PROBE_RSP_T`. -/
def bssidOft : Nat := 16
def timestampOft : Nat := 24
def beaconIntOft : Nat := 32
def capabInfoOft : Nat := 34

end Data

section Channels

def rw2ghzChannels : List UInt32 :=
  [2412, 2417, 2422, 2427, 2432, 2437, 2442, 2447, 2452, 2457, 2462, 2467, 2472, 2484]

def rwIeee80211GetChanId (freq : UInt32) : UInt8 :=
  match rw2ghzChannels.findIdx? (· = freq) with
  | some i => UInt8.ofNat (i + 1)
  | none => 0

def WifiCountry.isScanRstInCountrycode (c : WifiCountry) (freq : UInt8) : Bool :=
  if !c.manual then true
  else
    let startChan := c.schan.toUInt32
    let endChan := startChan + c.nchan.toUInt32 - 1
    if freq.toUInt32 < startChan ∨ freq.toUInt32 > endChan then false else true

end Channels

section Frame

variable (ip : IpLib) (i : ScanInd)

/-- `vies_len`, which wraps for a frame that is too short. -/
def ScanInd.viesLen : UInt32 := i.length.toUInt32 - UInt32.ofNat macBeaconVariablePartOft

/-- `mac_ie_find` is given the elements with a length of 16 bits. -/
def ScanInd.macIeFind (id : UInt8) : Reading UInt8 (Option Nat) :=
  .read macBeaconVariablePartOft i.viesLen.toUInt16.toNat fun v =>
    .done ((ip.macIeFind v.toList id).map (macBeaconVariablePartOft + ·))

/-- The SSID, as much of it as an item can hold. -/
def ScanInd.ssid : Reading UInt8 (List UInt8) :=
  (i.macIeFind ip macEltidSsid).bind fun
    | some elmtAddr => .cell (elmtAddr + macSsidLenOft) fun ssidLen =>
      .read (elmtAddr + macSsidSsidOft) (min ssidLen.toNat macSsidLen) fun v => .done v.toList
    | none => .done []

/-- The length that `get_security_type_from_ie` takes is an `int`. -/
def ScanInd.intLen : Nat := if i.viesLen.toNat < 2 ^ 31 then i.viesLen.toNat else 0

/-- The item that is made of a frame, in memory that was zero. -/
def ScanInd.build (chann : UInt8) (onChannel : Bool) : Reading UInt8 StaScanRes :=
  (i.ssid ip).bind fun ssid =>
  .read bssidOft ethAlen fun bssid =>
  .read beaconIntOft 2 fun beaconInt =>
  .read capabInfoOft 2 fun capabInfo =>
  .read timestampOft 8 fun timestamp =>
  .read macBeaconVariablePartOft i.viesLen.toNat fun ies =>
  .read macBeaconVariablePartOft i.intLen fun elements =>
  let caps := ofLe16 capabInfo.toList
  .done {
    bssid := bssid.toList
    ssid := ssid ++ List.replicate (macSsidLen - ssid.length) 0
    onChannel
    channel := chann
    beaconInt := ofLe16 beaconInt.toList
    caps
    level := i.rssi.toInt
    security := ip.getSecurityTypeFromIe elements.toList caps
    tsf := timestamp.toList
    ieLen := i.viesLen
    ies := ies.toList }

/-- The loop over the results from number `k` on: `none` where the frame is left, else the
`replace_index`. -/
def checkDuplicate (onChannel : Bool) : Nat → Option Nat → List StaScanRes →
    Reading UInt8 (Option (Option Nat))
  | _, replaceIndex, [] => .done (some replaceIndex)
  | k, replaceIndex, x :: xs =>
    .read bssidOft ethAlen fun bssid =>
      if bssid.toList = x.bssid then
        if x.onChannel || !onChannel then .done none
        else checkDuplicate onChannel (k + 1) (some k) xs
      else checkDuplicate onChannel (k + 1) replaceIndex xs

/-- `mhdr_scanu_result_ind` once the channel is known. -/
def ScanInd.store (malloc : Bool) (res : List StaScanRes) (chann : UInt8) (onChannel : Bool) :
    Reading UInt8 (List StaScanRes) :=
  (checkDuplicate onChannel 0 none res).bind fun
    | none => .done res
    | some replaceIndex =>
      if !malloc then .done res
      else (i.build ip chann onChannel).bind fun item =>
        match replaceIndex with
        | some k => .done (res.set k item)
        | none => .done (res ++ [item])

/-- `mhdr_scanu_result_ind`; `malloc` says whether there is memory for the item. -/
def mhdrScanuResultInd (country : WifiCountry) (malloc : Bool) (res : List StaScanRes) :
    Reading UInt8 (List StaScanRes) :=
  if res.length ≥ maxBssList then .done res
  else (i.macIeFind ip macEltidDs).bind fun
    | some elmtAddr => .cell (elmtAddr + macDsChannelOft) fun chann =>
      if !country.isScanRstInCountrycode chann then
        -- dropped, after its SSID is printed
        (i.ssid ip).bind fun _ => .done res
      else
        i.store ip malloc res chann
          (decide (chann = rwIeee80211GetChanId i.centerFreq.toUInt32))
    | none => i.store ip malloc res (rwIeee80211GetChanId i.centerFreq.toUInt32) false

end Frame

section Machine

/-- `sort_scan_result` -/
def sortScanResult (res : List StaScanRes) : List StaScanRes :=
  ExchangeSort.sort StaScanRes.level res

/-- The list of `scan_rst_set_ptr`, whether its scan is confirmed, and the indications that the
scan has given so far. -/
structure ScanRun where
  scanRstSetPtr : Option (List StaScanRes)
  resultfulScanCfm : Bool
  heard : List ScanInd

inductive ScanEvent
  /-- `shell` and `malloc` say whether there is memory for a list and for an item. -/
  | scanuResultInd (country : WifiCountry) (i : ScanInd) (shell malloc : Bool)
  | scanuStartCfm

inductive ScanAnswer
  /-- What was read of the frame. -/
  | heard (reads : List (Nat × Nat))
  /-- The list that was found, and the one that was left. -/
  | sorted (before after : List StaScanRes)

/-- The results of a confirmed scan are flushed by the next one. -/
def ScanRun.flush (s : ScanRun) : ScanRun :=
  if s.resultfulScanCfm && s.scanRstSetPtr.isSome then ⟨none, false, []⟩ else s

/-- The list of the scan, or a fresh one. -/
def ScanRun.shell (s : ScanRun) (shell : Bool) : Option (List StaScanRes) :=
  s.scanRstSetPtr.or (if shell then some [] else none)

/-- `SCANU_RESULT_IND` -/
def ScanRun.scanuResultInd (ip : IpLib) (s : ScanRun) (country : WifiCountry) (i : ScanInd)
    (shell malloc : Bool) : ScanRun × ScanAnswer :=
  let s := s.flush
  let heard := s.heard ++ [i]
  match s.shell shell with
  | some res =>
    let r := mhdrScanuResultInd ip i country malloc res
    ({ s with scanRstSetPtr := some (r.run i.payload), heard }, .heard (r.touched i.payload))
  | none => ({ s with heard }, .heard [])

/-- `SCANU_START_CFM` -/
def ScanRun.scanuStartCfm (s : ScanRun) : ScanRun × ScanAnswer :=
  match s.scanRstSetPtr with
  | some res =>
    ({ s with scanRstSetPtr := some (sortScanResult res), resultfulScanCfm := true },
      .sorted res (sortScanResult res))
  | none => ({ s with heard := [] }, .sorted [] [])

def ScanRun.step (ip : IpLib) (s : ScanRun) : ScanEvent → Option (ScanRun × ScanAnswer)
  | .scanuResultInd country i shell malloc => some (s.scanuResultInd ip country i shell malloc)
  | .scanuStartCfm => some s.scanuStartCfm

def scanList (ip : IpLib) : Machine ScanRun ScanEvent ScanAnswer where
  init := ⟨none, false, []⟩
  step := ScanRun.step ip

end Machine

end BdkRtt.Wlan.ScanList
