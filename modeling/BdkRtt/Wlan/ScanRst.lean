import BdkRtt.Lib.Machine
import Mathlib.Logic.Function.Basic

namespace BdkRtt.Wlan.ScanRst

open Lib

section State

/-- `struct sta_scan_res`, as far as it decides about the set; `addr` is the number of its
allocation. -/
structure ScanRstItem where
  addr : Nat
  bssid : List UInt8
  onChannel : Bool
  level : Int
  deriving DecidableEq

/-- `SCAN_RST_UPLOAD_T`; `scanu_num` is the length of `res`. -/
structure ScanRstUpload where
  ref : UInt16
  res : List ScanRstItem
  deriving DecidableEq

/-- The sets by the numbers of their shells, what has been allocated and freed, the two pointers,
and the pointers that callers of `sr_get_scan_results` have yet to release. -/
structure Scan where
  sets : Nat → ScanRstUpload
  shells : Nat
  items : Nat
  freedShells : List Nat
  freedItems : List Nat
  scanRstSetPtr : Option Nat
  resultfulScanCfm : Bool
  sScanResultUploadPtr : Option Nat
  getters : List Nat

def initial : Scan where
  sets := fun _ => { ref := 0, res := [] }
  shells := 0
  items := 0
  freedShells := []
  freedItems := []
  scanRstSetPtr := none
  resultfulScanCfm := false
  sScanResultUploadPtr := none
  getters := []

def maxBssList : Nat := 32

def Scan.setSet (s : Scan) (k : Nat) (x : ScanRstUpload) : Scan :=
  { s with sets := Function.update s.sets k x }

def Scan.setRef (s : Scan) (k : Nat) (ref : UInt16) : Scan :=
  s.setSet k { s.sets k with ref := ref }

def Scan.setRes (s : Scan) (k : Nat) (res : List ScanRstItem) : Scan :=
  s.setSet k { s.sets k with res := res }

end State

section Results

def Scan.srFreeResultItem (s : Scan) (item : ScanRstItem) : Scan :=
  { s with freedItems := s.freedItems ++ [item.addr] }

/-- `sr_free_all` -/
def Scan.srFreeAll (s : Scan) (k : Nat) : Scan :=
  let t := (s.sets k).res.foldl Scan.srFreeResultItem s
  { t.setSet k { ref := 0, res := [] } with freedShells := t.freedShells ++ [k] }

/-- `sr_get_scan_results`: the pointer, and whether the count at address 0 was touched. -/
def Scan.srGetScanResults (s : Scan) : Scan × Option Nat × Bool :=
  match s.scanRstSetPtr with
  | some k => (s.setRef k ((s.sets k).ref + 1), some k, false)
  | none => (s, none, true)

/-- `sr_release_scan_results` of a pointer that is not `NULL`. -/
def Scan.srReleaseScanResults (s : Scan) (k : Nat) : Scan :=
  if (s.sets k).ref = 0 then s
  else
    let s := s.setRef k ((s.sets k).ref - 1)
    if (s.sets k).ref ≠ 0 then s
    else
      -- whichever set this was, both pointers are cleared
      { s.srFreeAll k with
        scanRstSetPtr := none
        resultfulScanCfm := false
        sScanResultUploadPtr := none }

/-- `sr_flush_scan_results` -/
def Scan.srFlushScanResults (s : Scan) (k : Nat) : Scan := (s.setRef k 1).srReleaseScanResults k

end Results

section Messages

/-- What `mhdr_scanu_result_ind` reads from a beacon or probe response: the channel of its DS
element, and that of the frequency it was received on. -/
structure Frame where
  bssid : List UInt8
  level : Int
  dsChann : Option UInt8
  centerChann : UInt8

/-- The loop over the results with the same BSSID: `none` where the frame is left, else the index
that it replaces. -/
def findDuplicate (bssid : List UInt8) (onChannel : Bool) (i : Nat) (replaceIndex : Option Nat) :
    List ScanRstItem → Option (Option Nat)
  | [] => some replaceIndex
  | x :: xs =>
    if x.bssid = bssid then
      if x.onChannel ∨ !onChannel then none
      else findDuplicate bssid onChannel (i + 1) (some i) xs
    else findDuplicate bssid onChannel (i + 1) replaceIndex xs

/-- `mhdr_scanu_result_ind`; `inCountrycode` is `rw_ieee80211_is_scan_rst_in_countrycode`, and
`malloc` says whether there is memory for the item. -/
def Scan.mhdrScanuResultInd (s : Scan) (k : Nat) (inCountrycode : UInt8 → Bool) (f : Frame)
    (malloc : Bool) : Scan :=
  let res := (s.sets k).res
  if maxBssList ≤ res.length then s
  else if f.dsChann.any fun chann => !inCountrycode chann then s
  else
    let onChannel := f.dsChann.any (· = f.centerChann)
    match findDuplicate f.bssid onChannel 0 none res with
    | none => s
    | some replaceIndex =>
      if !malloc then s
      else
        let item : ScanRstItem := { addr := s.items, bssid := f.bssid, onChannel, level := f.level }
        let s := { s with items := s.items + 1 }
        match replaceIndex.bind fun i => res[i]?.map (i, ·) with
        | some (i, old) => (s.srFreeResultItem old).setRes k (res.set i item)
        | none => s.setRes k (res ++ [item])

/-- One round of `sort_scan_result`: the item that ends up at `i`, and those behind it. -/
def sortRound (x : ScanRstItem) : List ScanRstItem → ScanRstItem × List ScanRstItem
  | [] => (x, [])
  | y :: ys =>
    if y.level > x.level then
      let r := sortRound y ys
      (r.1, x :: r.2)
    else
      let r := sortRound x ys
      (r.1, y :: r.2)

/-- `sort_scan_result`, round by round. -/
def sortScanResult : Nat → List ScanRstItem → List ScanRstItem
  | n + 1, x :: xs =>
    let r := sortRound x xs
    r.1 :: sortScanResult n r.2
  | _, xs => xs

/-- `SCANU_START_CFM`; the callback that it ends with makes calls of its own. -/
def Scan.scanuStartCfm (s : Scan) : Scan :=
  match s.scanRstSetPtr with
  | some k =>
    let res := (s.sets k).res
    { s.setRes k (sortScanResult res.length res) with resultfulScanCfm := true }
  | none => s

/-- `SCANU_RESULT_IND`; `shell` says whether there is memory for a shell. -/
def Scan.scanuResultInd (s : Scan) (inCountrycode : UInt8 → Bool) (f : Frame)
    (shell malloc : Bool) : Scan :=
  let s :=
    match s.scanRstSetPtr with
    | some k =>
      if s.resultfulScanCfm then
        { s.srFlushScanResults k with scanRstSetPtr := none, resultfulScanCfm := false }
      else s
    | none => s
  match s.scanRstSetPtr with
  | some k => s.mhdrScanuResultInd k inCountrycode f malloc
  | none =>
    if shell then
      let k := s.shells
      let s := { s.setSet k { ref := 0, res := [] } with
        shells := s.shells + 1
        scanRstSetPtr := some k }
      s.mhdrScanuResultInd k inCountrycode f malloc
    else s

/-- `SM_CONNECT_IND` -/
def Scan.smConnectInd (s : Scan) : Scan :=
  match s.scanRstSetPtr with
  | some k =>
    { s.srReleaseScanResults k with scanRstSetPtr := none, resultfulScanCfm := false }
  | none => s

end Messages

section Supplicant

/-- The critical section of `wpa_get_scan_rst`, which begins with `wpa_buffer_scan_results`. -/
def Scan.wpaGetScanRst (s : Scan) : Scan × Bool :=
  let r := s.srGetScanResults
  ({ r.1 with sScanResultUploadPtr := r.2.1 }, r.2.2)

/-- `wpa_hostapd_release_scan_rst` -/
def Scan.wpaHostapdReleaseScanRst (s : Scan) : Scan × Bool :=
  match s.sScanResultUploadPtr with
  | some k => ({ s.srReleaseScanResults k with sScanResultUploadPtr := none }, false)
  | none =>
    let r := s.srGetScanResults
    match r.2.1 with
    | some k => (r.1.srReleaseScanResults k, r.2.2)
    | none => (r.1, r.2.2)

/-- The end of `wpa_send_assoc_req`. -/
def Scan.wpaSendAssocReq (s : Scan) : Scan :=
  match s.sScanResultUploadPtr with
  | some k => { s.srReleaseScanResults k with sScanResultUploadPtr := none }
  | none => s

end Supplicant

section Machine

inductive Event
  | scanuResultInd (inCountrycode : UInt8 → Bool) (f : Frame) (shell malloc : Bool)
  | scanuStartCfm
  | smConnectInd
  /-- Someone calls `sr_get_scan_results`. -/
  | srGetScanResults
  /-- Someone who has the pointer, or `NULL`, calls `sr_release_scan_results`. -/
  | srReleaseScanResults (ptr : Option Nat)
  /-- With `CFG_WPA_CTRL_IFACE` a `wpa_hostapd_release_scan_rst` follows. -/
  | wpaGetScanRst
  | wpaHostapdReleaseScanRst
  | wpaSendAssocReq

/-- `atNull`: the memory at address 0 was touched. -/
structure Answer where
  ptr : Option Nat
  atNull : Bool
  deriving DecidableEq

def Answer.done : Answer where
  ptr := none
  atNull := false

def Scan.step (s : Scan) : Event → Option (Scan × Answer)
  | .scanuResultInd inCountrycode f shell malloc =>
    some (s.scanuResultInd inCountrycode f shell malloc, .done)
  | .scanuStartCfm => some (s.scanuStartCfm, .done)
  | .smConnectInd => some (s.smConnectInd, .done)
  | .srGetScanResults =>
    let r := s.srGetScanResults
    some ({ r.1 with getters := r.2.1.toList ++ r.1.getters }, { ptr := r.2.1, atNull := r.2.2 })
  | .srReleaseScanResults none => some (s, .done)
  | .srReleaseScanResults (some k) =>
    if k ∈ s.getters then
      some ({ s with getters := s.getters.erase k }.srReleaseScanResults k, .done)
    else none
  | .wpaGetScanRst =>
    let r := s.wpaGetScanRst
    some (r.1, { ptr := r.1.sScanResultUploadPtr, atNull := r.2 })
  | .wpaHostapdReleaseScanRst =>
    let r := s.wpaHostapdReleaseScanRst
    some (r.1, { ptr := none, atNull := r.2 })
  | .wpaSendAssocReq => some (s.wpaSendAssocReq, .done)

def scanRst : Machine Scan Event Answer where
  init := initial
  step := Scan.step

end Machine

end BdkRtt.Wlan.ScanRst
