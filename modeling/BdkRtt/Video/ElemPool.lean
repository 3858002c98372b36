import BdkRtt.Lib.Machine
import BdkRtt.Lib.Mem
import BdkRtt.Video.Transfer

/-! The element pool under any setup, with `send_func` a step of its own: the interrupt may
come while the thread waits for it. -/

namespace BdkRtt.Video.ElemPool

open Lib

/-- `TVIDEO_OPEN_TYPE`; `none` stands for every other value of the field as well. -/
inductive OpenType
  | none
  | sccb
  | spidma
  deriving DecidableEq

/-- `TVIDEO_SND_TYPE`, in the same way. -/
inductive SndType
  | none
  | udp
  | tcp
  | intf
  | buffer
  deriving DecidableEq

/-- `TVIDEO_SETUP_DESC_ST`, whose two functions are here or `NULL`.  `useHdr` is
`TVIDEO_USE_HDR && CFG_USE_CAMERA_INTF`. -/
structure Setup where
  useHdr : Bool
  openType : OpenType
  sendType : SndType
  sendFunc : Bool
  addPktHeader : Bool
  pktHeaderSize : UInt32

/-- `pkt_header_size` of the pool, which is a `UINT16`. -/
def Setup.hdrSize (c : Setup) : UInt32 := c.pktHeaderSize.toUInt16.toUInt32

/-- `tvideo_config_desc` -/
def Setup.nodeLen (c : Setup) : UInt32 :=
  match c.sendType with
  | .udp => if c.useHdr ∧ c.openType ≠ .spidma then 1472 - c.hdrSize else 1472
  | .tcp => 1460
  | .intf => if c.useHdr then 1472 - c.hdrSize else 1472
  | .buffer => 1460
  | .none => 1460

abbrev Pkt := List UInt8

/-- `TVIDEO_POOL_ST` with the bytes of `pool`; an element stands for its place in `elem`.
`sending` is the element `tvideo_poll_handler` keeps while `send_func` runs. -/
structure TvideoPool where
  free : List Nat
  ready : List Nat
  bufLen : Nat → UInt32
  pool : Mem UInt8
  frameId : UInt16
  sending : Option Nat

def bufStart (elem : Nat) : Nat := elem * tvideoRxnodeSize

def TvideoPool.pkt (s : TvideoPool) (elem : Nat) : Pkt :=
  s.pool.read (bufStart elem) (s.bufLen elem).toNat

def TvideoPool.pkts (s : TvideoPool) : List Pkt := s.ready.map s.pkt

def tvideoPoolInit : TvideoPool where
  free := List.range tvideoElems
  ready := []
  bufLen _ := 0
  pool _ := 0
  frameId := 0
  sending := none

/-- The arguments of `tvideo_rx_handler`, and what `add_pkt_header` writes for its own. -/
structure Node where
  curptr : Mem UInt8
  newlen : UInt32
  isEof : UInt32
  frameLen : UInt32
  hdr : TvHdrParam → Mem UInt8

/-- `pkt_cnt`; `none` is the division by a `node_len` of zero. -/
def Node.pktCnt (n : Node) (nodeLen : UInt32) : Option UInt32 :=
  if n.isEof = 0 then some 0
  else if nodeLen = 0 then none
  else some (n.frameLen / nodeLen + (if n.frameLen % nodeLen ≠ 0 then 1 else 0))

def Setup.clip (c : Setup) (newlen : UInt32) : UInt32 :=
  if newlen > c.nodeLen then c.nodeLen else newlen

/-- The pool's bytes after the node is copied to `elem`, and the new `buf_len`. -/
def Setup.fill (c : Setup) (s : TvideoPool) (elem : Nat) (n : Node) : Option (Mem UInt8 × UInt32) :=
  let newlen := c.clip n.newlen
  if c.useHdr ∧ c.openType ≠ .spidma then
    (n.pktCnt c.nodeLen).map fun pktCnt =>
      let param : TvHdrParam :=
        { ptklen := newlen
          frameId := s.frameId.toUInt32
          isEof := n.isEof
          frameLen := pktCnt }
      let pool :=
        if c.addPktHeader then
          s.pool.write (bufStart elem) ((n.hdr param).read 0 c.hdrSize.toNat)
        else s.pool
      (pool.write (bufStart elem + c.hdrSize.toNat) (n.curptr.read 0 newlen.toNat),
        newlen + c.hdrSize)
  else some (s.pool.write (bufStart elem) (n.curptr.read 0 newlen.toNat), newlen)

/-- `tvideo_rx_handler`, with the packet that it puts on the ready list. -/
def tvideoRxHandler (c : Setup) (s : TvideoPool) (n : Node) : Option (TvideoPool × Option Pkt) :=
  if n.newlen = 0 then some (s, none)
  else match s.free with
  | [] => some (s, none) -- lost
  | elem :: free =>
    (c.fill s elem n).map fun filled =>
      let s : TvideoPool :=
        { s with
          free := free
          ready := s.ready ++ [elem]
          bufLen := Function.update s.bufLen elem filled.2
          pool := filled.1 }
      (s, some (s.pkt elem))

def tvideoEndFrameHandler (c : Setup) (s : TvideoPool) : TvideoPool :=
  if c.useHdr ∧ c.openType ≠ .spidma then { s with frameId := s.frameId + 1 } else s

/-- `co_list_pop_front` of the ready list and `co_list_push_back` of `elem` to the free one. -/
def TvideoPool.release (s : TvideoPool) (elem : Nat) : TvideoPool :=
  { s with ready := s.ready.tail, free := s.free ++ [elem] }

/-- The loop of `tvideo_poll_handler` when `send_func` is `NULL`. -/
def TvideoPool.drain (s : TvideoPool) : List Nat → TvideoPool
  | [] => s
  | elem :: ready => (s.release elem).drain ready

/-- `tvideo_poll_handler` from the pick to the call of `send_func`, with the packet it is
called with. -/
def tvideoPollHandler (c : Setup) (s : TvideoPool) : TvideoPool × Option Pkt :=
  if c.sendFunc then ({ s with sending := s.ready.head? }, s.ready.head?.map s.pkt)
  else (s.drain s.ready, none)

/-- `tvideo_poll_handler` from the return of `send_func` to the next call. -/
def tvideoSent (c : Setup) (s : TvideoPool) (elem : Nat) (sendLen : UInt32) :
    TvideoPool × Option Pkt :=
  if sendLen ≠ s.bufLen elem then ({ s with sending := none }, none)
  else tvideoPollHandler c (s.release elem)

inductive Event
  | nodeFull (n : Node)
  | endFrame
  | poll
  | sent (sendLen : UInt32)

inductive Answer
  | queued (pkt : Option Pkt)
  | frameEnded
  | called (pkt : Option Pkt)

/-- The thread does not poll again before `send_func` has returned. -/
def step (c : Setup) (s : TvideoPool) : Event → Option (TvideoPool × Answer)
  | .nodeFull n => (tvideoRxHandler c s n).map fun r => (r.1, .queued r.2)
  | .endFrame => some (tvideoEndFrameHandler c s, .frameEnded)
  | .poll =>
    if s.sending = none then
      let r := tvideoPollHandler c s
      some (r.1, .called r.2)
    else none
  | .sent sendLen => s.sending.map fun elem =>
    let r := tvideoSent c s elem sendLen
    (r.1, .called r.2)

def tvideo (c : Setup) : Machine TvideoPool Event Answer where
  init := tvideoPoolInit
  step := step c

end BdkRtt.Video.ElemPool
