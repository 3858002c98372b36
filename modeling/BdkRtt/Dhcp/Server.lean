import BdkRtt.Lib.Machine
import Mathlib.Algebra.Group.Nat.Defs

namespace BdkRtt.Dhcp

open Lib

/-- `lwip_htonl` on a little-endian core; `lwip_ntohl` is the same function. -/
def htonl (x : UInt32) : UInt32 :=
  ((x &&& 0x000000ff) <<< 24) ||| ((x &&& 0x0000ff00) <<< 8) |||
    ((x &&& 0x00ff0000) >>> 8) ||| ((x &&& 0xff000000) >>> 24)

def ntohl (x : UInt32) : UInt32 := htonl x

/-- The six bytes of a `chaddr`. -/
structure Mac where
  b0 : UInt8
  b1 : UInt8
  b2 : UInt8
  b3 : UInt8
  b4 : UInt8
  b5 : UInt8
  deriving DecidableEq

structure ClientMacCache where
  clientMac : Mac
  clientIp : UInt32
  deriving DecidableEq

def macIpCacheSize : Nat := 8

/-- `ip_mac_mapping`: the entries below `count_clients`. -/
structure IpMacMapping where
  clients : List ClientMacCache
  bounded : clients.length ≤ macIpCacheSize

def IpMacMapping.empty : IpMacMapping := ⟨[], Nat.zero_le _⟩

/-- `struct dhcp_server_data`, with the lease time and whether the name server that refuses
every query is on.  All addresses but `current_ip` are in network order. -/
structure DhcpServerData where
  ipMacMapping : IpMacMapping
  netmask : UInt32
  myIp : UInt32
  clientIp : UInt32
  currentIp : UInt32
  routerIp : UInt32
  addressTimeout : UInt32
  nackDns : Bool

def clientIpNotFound : UInt32 := 0

def acNotFull (dhcps : DhcpServerData) : Bool :=
  dhcps.ipMacMapping.clients.length < macIpCacheSize

/-- `ac_add`; the second component is its result, true when there is no room. -/
def acAdd (dhcps : DhcpServerData) (chaddr : Mac) (clientIp : UInt32) :
    DhcpServerData × Bool :=
  if h : dhcps.ipMacMapping.clients.length < macIpCacheSize then
    ({ dhcps with
        ipMacMapping :=
          { clients := dhcps.ipMacMapping.clients ++ [⟨chaddr, clientIp⟩]
            bounded := by rw [List.length_append]; exact h } }, false)
  else (dhcps, true)

def acLookupMac (dhcps : DhcpServerData) (chaddr : Mac) : UInt32 :=
  match dhcps.ipMacMapping.clients.find? fun e => e.clientMac = chaddr with
  | some e => e.clientIp
  | none => clientIpNotFound

def acLookupIp (dhcps : DhcpServerData) (clientIp : UInt32) : Option Mac :=
  (dhcps.ipMacMapping.clients.find? fun e => e.clientIp = clientIp).map (·.clientMac)

def acValidIp (dhcps : DhcpServerData) (requestedIp : UInt32) : Bool :=
  if requestedIp = ntohl dhcps.myIp ∨ requestedIp = ntohl (dhcps.myIp &&& dhcps.netmask) ∨
      requestedIp = ntohl (dhcps.myIp ||| (0xffffffff &&& ~~~dhcps.netmask)) then false
  else if (acLookupIp dhcps (htonl requestedIp)).isSome then false
  else true

/-- The address after `ip` in the subnet. -/
def succIp (dhcps : DhcpServerData) (ip : UInt32) : UInt32 :=
  ntohl (dhcps.myIp &&& dhcps.netmask) ||| ((ip + 1) &&& ntohl (~~~dhcps.netmask))

/-- The `while` loop of `next_yiaddr`. -/
def searchIp (dhcps : DhcpServerData) : Nat → UInt32 → Option UInt32
  | 0, _ => none
  | fuel + 1, ip =>
    if acValidIp dhcps (succIp dhcps ip) then some (succIp dhcps ip)
    else searchIp dhcps fuel (succIp dhcps ip)

/-- `next_yiaddr`.  A search that finds nothing in `2 ^ 32` steps has come round and goes on
for ever: `none`. -/
def nextYiaddr (dhcps : DhcpServerData) (chaddr : Mac) : Option (DhcpServerData × UInt32) :=
  let newIp := acLookupMac dhcps chaddr
  if newIp = clientIpNotFound then
    match searchIp dhcps (2 ^ 32) dhcps.currentIp with
    | none => none
    | some ip =>
      let dhcps := { dhcps with currentIp := ip }
      some ((acAdd dhcps chaddr (htonl ip)).1, htonl ip)
  else some (dhcps, newIp)

/-- The message types a response can have. -/
inductive DhcpMessageType
  | offer | ack | nak
  deriving DecidableEq

def DhcpMessageType.code : DhcpMessageType → UInt8
  | .offer => 2
  | .ack => 5
  | .nak => 6

/-- A datagram: the buffer it was received in, and its length. -/
structure Message where
  data : Nat → UInt8
  len : Nat

def sizeofBootpHeader : Nat := 240
def sizeofBootpOption : Nat := 2

def leWord (data : Nat → UInt8) (off : Nat) : UInt32 :=
  (data off).toUInt32 ||| ((data (off + 1)).toUInt32 <<< 8) |||
    ((data (off + 2)).toUInt32 <<< 16) ||| ((data (off + 3)).toUInt32 <<< 24)

def Message.op (m : Message) : UInt8 := m.data 0
def Message.htype (m : Message) : UInt8 := m.data 1
def Message.hlen (m : Message) : UInt8 := m.data 2
def Message.ciaddr (m : Message) : UInt32 := leWord m.data 12

def Message.chaddr (m : Message) : Mac :=
  ⟨m.data 28, m.data 29, m.data 30, m.data 31, m.data 32, m.data 33⟩

def writeU32 (beValue : UInt32) : List UInt8 :=
  [beValue.toUInt8, (beValue >>> 8).toUInt8, (beValue >>> 16).toUInt8, (beValue >>> 24).toUInt8]

/-- What goes out: `yiaddr`, the client it is for, and the options with their values. -/
structure Response where
  type : DhcpMessageType
  chaddr : Mac
  yiaddr : UInt32
  options : List (UInt8 × List UInt8)
  deriving DecidableEq

def responseOptions (dhcps : DhcpServerData) (type : DhcpMessageType) :
    List (UInt8 × List UInt8) :=
  match type with
  | .nak => [(53, [type.code])]
  | .offer | .ack =>
    [(53, [type.code]), (1, writeU32 dhcps.netmask), (51, writeU32 (htonl dhcps.addressTimeout)),
      (54, writeU32 dhcps.myIp), (3, writeU32 dhcps.routerIp),
      (6, writeU32 (if dhcps.nackDns then dhcps.routerIp else 0))]

def makeResponse (dhcps : DhcpServerData) (chaddr : Mac) (type : DhcpMessageType) :
    Option (DhcpServerData × Response) :=
  let respond (dhcps : DhcpServerData) (yiaddr : UInt32) : DhcpServerData × Response :=
    (dhcps, { type, chaddr, yiaddr, options := responseOptions dhcps type })
  match type with
  | .ack => some (respond dhcps dhcps.clientIp)
  | .offer => (nextYiaddr dhcps chaddr).map fun r => respond r.1 r.2
  | .nak => some (respond dhcps 0)

/-- The server and the local variables of `process_dhcp_message` in the option loop. -/
structure Walk where
  dhcps : DhcpServerData
  responseType : Option DhcpMessageType := none
  gotIp : Bool := false
  needIp : Bool := false
  gotClientIp : Bool := false

def messageOption (m : Message) (off : Nat) (w : Walk) : Walk :=
  if m.data off = 53 ∧ m.data (off + 1) = 1 then
    if m.data (off + 2) = 1 then { w with responseType := some .offer }
    else if m.data (off + 2) = 3 then
      if m.ciaddr ≠ 0 then
        { w with
          needIp := true
          dhcps := { w.dhcps with clientIp := m.ciaddr }
          gotClientIp := true }
      else { w with needIp := true }
    else w
  else w

def requestedIpOption (m : Message) (off : Nat) (w : Walk) : Walk :=
  if m.data off = 50 ∧ m.data (off + 1) = 4 then
    { w with dhcps := { w.dhcps with clientIp := leWord m.data (off + 2) }, gotClientIp := true }
  else w

def checkClientIp (chaddr : Mac) (w : Walk) : Walk :=
  let dhcps := w.dhcps
  if w.gotClientIp = false then w
  else if dhcps.clientIp &&& dhcps.netmask = dhcps.myIp &&& dhcps.netmask then
    let newIp := acLookupMac dhcps chaddr
    if newIp ≠ clientIpNotFound then { w with gotIp := newIp == dhcps.clientIp }
    else if acValidIp dhcps (ntohl dhcps.clientIp) then
      if acNotFull dhcps then
        { w with dhcps := (acAdd dhcps chaddr dhcps.clientIp).1, gotIp := true }
      else { w with gotIp := true }
    else w
  else w

def settleResponse (w : Walk) : Walk :=
  if w.needIp then { w with responseType := some (if w.gotIp then .ack else .nak) } else w

/-- The address an option names, before it is looked at. -/
def nameOption (m : Message) (off : Nat) (w : Walk) : Walk :=
  requestedIpOption m off (messageOption m off w)

def walkOption (m : Message) (off : Nat) (w : Walk) : Walk :=
  settleResponse (checkClientIp m.chaddr (nameOption m off w))

/-- The option loop.  Every option takes at least one byte, so `len` rounds are enough. -/
def walkOptions (m : Message) : Nat → (off len : Nat) → Walk → Walk
  | 0, _, _, w => w
  | fuel + 1, off, len, w =>
    if 0 < len ∧ m.data off ≠ 0xff then
      let consumed := sizeofBootpOption + (m.data (off + 1)).toNat
      walkOptions m fuel (off + consumed) (len - consumed) (walkOption m off w)
    else w

/-- The checks in front of the loop. -/
def Message.accepted (m : Message) : Bool :=
  ¬ m.len < sizeofBootpHeader + sizeofBootpOption + 1 ∧ (m.op = 1 ∨ m.op = 2) ∧
    m.htype = 1 ∧ m.hlen = 6

def optionsOf (dhcps : DhcpServerData) (m : Message) : Walk :=
  walkOptions m (m.len - sizeofBootpHeader) sizeofBootpHeader (m.len - sizeofBootpHeader)
    { dhcps := dhcps }

/-- `process_dhcp_message`, with its result and the response sent. -/
def processDhcpMessage (dhcps : DhcpServerData) (m : Message) :
    Option (DhcpServerData × Int × Option Response) :=
  if m.accepted then
    let w := optionsOf dhcps m
    match w.responseType with
    | none => some (w.dhcps, 0, none)
    | some type => (makeResponse w.dhcps m.chaddr type).map fun r => (r.1, 0, some r.2)
  else some (dhcps, -1, none)

/-- `dhcp_server_init`: the addresses are those of the interface. -/
def dhcpServerInit (myIp netmask routerIp addressTimeout : UInt32) (nackDns : Bool) :
    DhcpServerData where
  ipMacMapping := .empty
  netmask := netmask
  myIp := myIp
  clientIp := 0
  currentIp := ntohl (myIp &&& netmask) ||| (99 &&& ntohl (~~~netmask))
  routerIp := routerIp
  addressTimeout := addressTimeout
  nackDns := nackDns

/-- The server thread, one datagram at a time. -/
def dhcpServer (dhcps : DhcpServerData) :
    Machine DhcpServerData Message (Int × Option Response) where
  init := dhcps
  step := processDhcpMessage

end BdkRtt.Dhcp
