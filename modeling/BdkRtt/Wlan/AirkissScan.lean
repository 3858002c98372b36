import BdkRtt.Wlan.Airkiss
import BdkRtt.Lib.Ranked

namespace BdkRtt.Wlan.Airkiss

open Lib

section Runs

/-- What has been seen on a channel while it was scanned. -/
structure Dwell where
  channel : UInt8
  bcns : Nat
  datas : Nat
deriving DecidableEq

/-- The channel saw enough to be selected. -/
def Dwell.Worthy (d : Dwell) : Prop :=
  minValidDatacntInchan.toNat ≤ d.datas ∧ minValidBcncntInchan.toNat ≤ d.bcns

instance (d : Dwell) : Decidable d.Worthy := inferInstanceAs (Decidable (_ ∧ _))

/-- What the counters make of it. -/
def Dwell.counted (d : Dwell) : Dwell := { d with bcns := d.bcns % 256, datas := d.datas % 256 }

/-- A round through the channels, and whether any have been selected. -/
structure Round where
  dwells : List Dwell
  picked : Bool

/-- A scan: the variables, the scan of the channel that the radio is on, the finished scans of the
round, and the rounds that are finished. -/
structure ChanRun where
  globals : Globals
  dwell : Dwell
  dwells : List Dwell
  rounds : List Round

inductive ChanEvent
  | frame (data : Mem UInt8) (len : Nat)
  | expiry

inductive ChanAnswer
  | heard
  | switched (switch : Option Switch)

/-- The frame as the scan of the channel sees it. -/
def Dwell.hear (d : Dwell) (data : Mem UInt8) (len : Nat) : Dwell :=
  if len < airkissMinRxBufSize then d
  else if isBeacon data then { d with bcns := d.bcns + 1 }
  else if isData data then { d with datas := d.datas + 1 }
  else d

/-- The finished scans after an expiry that leaves the variables `g`. -/
def ChanRun.finish (s : ChanRun) (g : Globals) : List Dwell × List Round :=
  if s.globals.chans.mode = airkissScanAllChan then
    let dwells := s.dwells ++ [s.dwell]
    if g.chans.curChanIdx = 0 then
      if g.chans.mode = airkissScanSelectedChan then (dwells, s.rounds ++ [⟨dwells, true⟩])
      else ([], s.rounds ++ [⟨dwells, false⟩])
    else (dwells, s.rounds)
  else (if g.chans.mode = airkissScanAllChan then [] else s.dwells, s.rounds)

def ChanRun.step (macIeFind : MacIeFind) (s : ChanRun) : ChanEvent → Option (ChanRun × ChanAnswer)
  | .frame data len => (airkissMonitorCallback macIeFind s.globals data len).map fun r =>
    ({ s with globals := r.1, dwell := s.dwell.hear data len }, .heard)
  | .expiry => (airkissSwitchChannelCallback s.globals).map fun r =>
    ({ globals := r.1
       dwell := ⟨(r.2.map Switch.channel).getD s.dwell.channel, 0, 0⟩
       dwells := (s.finish r.1).1
       rounds := (s.finish r.1).2 }, .switched r.2)

/-- From `airkiss_set_scan_all_channel` on, with the radio on the first channel. -/
def chanScan (macIeFind : MacIeFind) (g : Globals) : Machine ChanRun ChanEvent ChanAnswer where
  init := ⟨airkissSetScanAllChannel g, ⟨1, 0, 0⟩, [], []⟩
  step := ChanRun.step macIeFind

end Runs

section Law

/-- The channels of a round. -/
def allChannels : List UInt8 := (List.range 13).map fun i => UInt8.ofNat (i + 1)

def Channels.selected (g : Channels) : List ChanParam := g.chan.take g.selectedChanNums.toNat

structure ChanLaw (macIeFind : MacIeFind) (s : ChanRun) : Prop where
  /-- The selected entries are the channels that saw enough, the ones with most frames first. -/
  selected : ∃ ds : List Dwell, ds.Perm (s.dwells.filter fun d => d.Worthy) ∧
    Ranked.Sorted Dwell.datas ds ∧
    s.globals.chans.selected.map ChanParam.channel = ds.map fun d => d.channel.toUInt16
  /-- The round goes through the channels one after the other. -/
  scanning : s.globals.chans.mode = airkissScanAllChan →
    s.dwells.map Dwell.channel ++ [s.dwell.channel] <+: allChannels
  /-- It does not end before, and only where no channel saw enough is none selected. -/
  rounds : ∀ r ∈ s.rounds, r.dwells.map Dwell.channel = allChannels ∧
    (r.picked = false → ∀ d ∈ r.dwells, ¬ d.Worthy)
  index : s.globals.chans.curChanIdx.toNat < maxChannels
  inside : ∀ e, (s.step macIeFind e).isSome

/-- The counters, which have eight bits, give the frames that were seen their place. -/
structure Dwell.Told (d : Dwell) (ds : List Dwell) : Prop where
  worthy : d.Worthy ↔ d.counted.Worthy
  order : d.Worthy → ∀ e ∈ ds, e.Worthy →
    (d.counted.datas ≤ e.counted.datas → d.datas ≤ e.datas) ∧
      (e.counted.datas < d.counted.datas → e.datas ≤ d.datas)

/-- At an expiry in the round, the scan that it ends is told from the finished ones. -/
def ToldAtExpiry (s : ChanRun) : ChanEvent → Prop
  | .frame _ _ => True
  | .expiry => s.globals.chans.mode = airkissScanAllChan → s.dwell.Told s.dwells

end Law

end BdkRtt.Wlan.Airkiss
