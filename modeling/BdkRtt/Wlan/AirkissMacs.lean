import BdkRtt.Wlan.Airkiss

/-! The transmitters that the airkiss scan has seen, and the channel it locks on. -/

namespace BdkRtt.Wlan.Airkiss

open Lib

section Lock

def airkissStatusContinue : Int := 0
def airkissStatusChannelLocked : Int := 1
def airkissStatusComplete : Int := 2

/-- The loop of `process_airkiss` over the table from `i` on, with the channels it sets. -/
def Globals.lockFrom (crc : UInt8) : Nat → Nat → Globals → Option (Globals × List UInt16)
  | 0, _, g => some (g, [])
  | left + 1, i, g =>
    let x := (g.macs.mac i)
    if crc = x.macCrc then
      (g.chans.chan[g.chans.curChanIdx.toNat]?).bind fun c =>
        if c.channel ≠ x.channel then
          let chan := g.chans.chan.set g.chans.curChanIdx.toNat { c with channel := x.channel }
          (lockFrom crc left (i + 1) { g with chans := { g.chans with chan } }).map fun r =>
            (r.1, x.channel :: r.2)
        else lockFrom crc left (i + 1) g
    else lockFrom crc left (i + 1) g

/-- `process_airkiss`, where `airkiss_recv` of the airkiss library answers `ret`. -/
def processAirkiss (g : Globals) (packet : Mem UInt8) (ret : Int) :
    Option (Globals × List UInt16) :=
  if ret = airkissStatusContinue then some (g, [])
  else if ret = airkissStatusChannelLocked then
    g.lockFrom (macCrc packet) g.macs.macCnt.toNat 0
  else some (g, [])

/-- What `airkiss_main` does with a packet that it has read. -/
def airkissMainPacket (g : Globals) (packet : Mem UInt8) (ret : Int) :
    Option (Globals × List UInt16) :=
  if g.chans.mode = airkissScanSelectedChan then processAirkiss g packet ret else some (g, [])

end Lock

section Runs

/-- A beacon: the checksum of its transmitter, the channel that the code reads from it, and the
channel that a DS element among the bytes of the frame announces. -/
structure Beacon where
  crc : UInt8
  read : UInt16
  said : Option UInt16

def dsElement (macIeFind : MacIeFind) (frame : Mem UInt8) (size : Nat) : Option UInt16 :=
  let part := frame.read macBeaconVariablePartOft (size - macBeaconVariablePartOft)
  (macIeFind part macEltidDs).bind fun elmt =>
    (part[elmt + macDsChannelOft]?).map UInt8.toUInt16

/-- The beacon in a frame that the monitor does not drop. -/
def beacon (macIeFind : MacIeFind) (data : Mem UInt8) (len : Nat) : Option Beacon :=
  if len < airkissMinRxBufSize then none
  else if isBeacon data then
    some ⟨macCrc data, dsChannel data macIeFind len, dsElement macIeFind data len⟩
  else none

def Beacon.announced (b : Beacon) : Option (UInt8 × UInt16) := b.said.map fun ch => (b.crc, ch)

/-- A scan: the variables, the beacons since the table was cleared, what beacons have ever
announced, the entries that were written, and each channel that was switched to at a lock. -/
structure MacRun where
  globals : Globals
  fresh : List Beacon
  announced : List (UInt8 × UInt16)
  written : List Nat
  switches : List (UInt8 × UInt16)

inductive MacEvent
  | frame (data : Mem UInt8) (len : Nat)
  | packet (data : Mem UInt8) (ret : Int)
  /-- `ak_chan_timer` -/
  | expiry
  /-- `ak_doing_timer` -/
  | restart

/-- The beacons that the table stands for after a timer that leaves the variables `g`. -/
def MacRun.keep (s : MacRun) (g : Globals) : MacRun :=
  { s with globals := g, fresh := if g.macs.macCnt = 0 then [] else s.fresh }

def MacRun.step (macIeFind : MacIeFind) (s : MacRun) : MacEvent → Option (MacRun × Unit)
  | .frame data len => (airkissMonitorCallback macIeFind s.globals data len).map fun r =>
    ({ s with
        globals := r.1
        fresh := s.fresh ++ (beacon macIeFind data len).toList
        announced := s.announced ++ ((beacon macIeFind data len).bind Beacon.announced).toList
        written := s.written ++ r.2 }, ())
  | .packet data ret => (airkissMainPacket s.globals data ret).map fun r =>
    ({ s with
        globals := r.1
        switches := s.switches ++ r.2.map fun ch => (macCrc data, ch) }, ())
  | .expiry => (airkissSwitchChannelCallback s.globals).map fun r => (s.keep r.1, ())
  | .restart => some (s.keep (airkissSetScanAllChannel s.globals), ())

/-- From `airkiss_set_scan_all_channel` on. -/
def macScan (macIeFind : MacIeFind) (g : Globals) : Machine MacRun MacEvent Unit where
  init := ⟨airkissSetScanAllChannel g, [], [], [], []⟩
  step := MacRun.step macIeFind

end Runs

section Law

structure MacLaw (s : MacRun) : Prop where
  written : ∀ i ∈ s.written, i < maxMac
  count : s.globals.macs.macCnt.toNat ≤ maxMac
  distinct : ∀ i j, i < j → j < s.globals.macs.macCnt.toNat →
    (s.globals.macs.mac i).macCrc ≠ (s.globals.macs.mac j).macCrc
  switches : ∀ x ∈ s.switches, x ∈ s.announced

/-- The channel of the last beacon with the checksum that the code read one from, 0 before. -/
def lastRead (crc : UInt8) (bs : List Beacon) : UInt16 :=
  bs.foldl (fun ch b => if b.crc = crc ∧ b.read ≠ 0 then b.read else ch) 0

/-- The radio's channel as the scan knows it. -/
def Globals.channel (g : Globals) : Option UInt16 :=
  (g.chans.chan[g.chans.curChanIdx.toNat]?).map ChanParam.channel

/-- There is an entry left for a beacon with a new checksum, and at a lock that moves the radio,
a beacon announced the channel that was last read for the checksum. -/
def RoomAndAnnounced (macIeFind : MacIeFind) (s : MacRun) : MacEvent → Prop
  | .frame data len => ∀ b ∈ beacon macIeFind data len,
    s.globals.macs.macCnt.toNat < maxMac ∨ ∃ b' ∈ s.fresh, b'.crc = b.crc
  | .packet data ret => s.globals.chans.mode = airkissScanSelectedChan →
    ret = airkissStatusChannelLocked → (∃ b ∈ s.fresh, b.crc = macCrc data) →
    s.globals.channel ≠ some (lastRead (macCrc data) s.fresh) →
    (macCrc data, lastRead (macCrc data) s.fresh) ∈ s.announced
  | .expiry | .restart => True

end Law

end BdkRtt.Wlan.Airkiss
